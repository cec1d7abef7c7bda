import GrammarLayout.Proofs.Grammar.Blocks
import Mathlib.Algebra.Order.BigOperators.Group.List
import Mathlib.Algebra.Order.Group.Nat

/-!
# Balanced texts in the blocks of a line

What stands inside a complete block is balanced, and nothing else is asked of
it: any balanced text may take its place, of any length and with any quotes in
it, and the line still has the same blocks.  So changing the blocks of a line
is a map over its inner texts.

What is proved here:

* `closed_iff_balanced` — the texts that a block is closed around are the
  balanced ones;
* `balanced_of_mem_blockInners` — the inner texts of a line are balanced;
* `mem_blockInners_iff` — they are the texts that a change of the blocks looks
  at;
* `mapBlocks_functorial` — changing nothing, changing twice, and the unclosed
  brace of a changed line.
-/

namespace GrammarLayout

open Ascii Text

/-! ## Balanced texts -/

/-- The text opens as many braces as it closes, and no part of it from the start closes more than it
opens. -/
structure Balanced (s : Text) : Prop where
  /-- All braces together balance. -/
  balance : braceBalance s = 0
  /-- None closes a brace in front of the text. -/
  nonneg : ∀ t, t <+: s → 0 ≤ braceBalance t

/-- A block is closed around the balanced texts. -/
theorem closed_iff_balanced {s : Text} : Closed s ↔ Balanced s := by
  have hinside := closingBraceFrom_eq_none_iff (s := s) Int.one_pos
  constructor
  · intro h
    refine ⟨h.balance, fun t ht => ?_⟩
    have := hinside.1 h.inside t ht
    omega
  · intro h
    refine ⟨hinside.2 fun t ht => ?_, h.balance⟩
    have := h.nonneg t ht
    omega

instance : DecidablePred Balanced := fun s =>
  decidable_of_iff (closingBraceFrom 1 s = none ∧ braceBalance s = 0)
    ⟨fun h => closed_iff_balanced.1 ⟨h.1, h.2⟩, fun h =>
      ⟨(closed_iff_balanced.2 h).inside, h.balance⟩⟩

/-- A block around a balanced text is balanced. -/
theorem Balanced.block {s : Text} (h : Balanced s) : Balanced (openBrace :: s ++ [closeBrace]) := by
  refine ⟨by simp [h.balance], fun t ht => ?_⟩
  rw [List.cons_append] at ht
  rcases List.prefix_cons_iff.1 ht with rfl | ⟨u, rfl, hu⟩
  · simp
  · rw [braceBalance_openBrace]
    rcases List.prefix_concat_iff.1 hu with rfl | hu
    · simp [h.balance]
    · have := h.nonneg u hu
      omega

/-! ## The inner texts of a line -/

theorem blockInners_of_none {s : Text} (h : firstBlock? s = none) : blockInners s = [] := by
  rw [blockInners, blockLine_of_firstBlock?_eq_none h, List.map_nil]

theorem blockInners_of_firstBlock? {s rest : Text} {b : Block}
    (h : firstBlock? s = some (b, rest)) : blockInners s = b.inner :: blockInners rest := by
  rw [blockInners, blockLine_of_firstBlock? h, List.map_cons]
  rfl

theorem balanced_of_mem_blockInners {s t : Text} (h : t ∈ blockInners s) : Balanced t := by
  induction s using firstBlock?_induction with
  | tail s hblock =>
    rw [blockInners_of_none hblock] at h
    exact absurd h (by simp)
  | block s b rest hblock ih =>
    rw [blockInners_of_firstBlock? hblock, List.mem_cons] at h
    rcases h with rfl | h
    · exact closed_iff_balanced.1 (firstBlock?_eq_some_iff.1 hblock).2.2
    · exact ih h

/-- What becomes of a line depends on what becomes of its inner texts. -/
theorem mapBlocks_congr {f g : Text → Text} {s : Text} (h : ∀ t ∈ blockInners s, f t = g t) :
    mapBlocks f s = mapBlocks g s := by
  rw [mapBlocks_eq, mapBlocks_eq]
  congr 1
  refine List.flatMap_congr fun b hb => ?_
  rw [Block.text, Block.text, h b.inner (List.mem_map_of_mem hb)]

/-- Changing the blocks of `s` looks at what becomes of `t`: two changes that differ there only can
make different lines of `s`. -/
def Consults (s t : Text) : Prop :=
  ∃ f g : Text → Text, (∀ u, u ≠ t → f u = g u) ∧ mapBlocks f s ≠ mapBlocks g s

/-- The inner texts of a line are the texts that a change of its blocks looks at. -/
theorem mem_blockInners_iff {s t : Text} : t ∈ blockInners s ↔ Consults s t := by
  constructor
  · intro h
    obtain ⟨b, hb, rfl⟩ := List.mem_map.1 h
    -- A change that empties every block, and one that leaves a byte in those around `t`.
    refine ⟨fun _ => [], fun u => if u = b.inner then [space] else [], ?_, fun heq => ?_⟩
    · intro u hu
      simp only [if_neg hu]
    · have hlen := congrArg List.length heq
      rw [mapBlocks_eq, mapBlocks_eq, List.length_append, List.length_append,
        Nat.add_right_cancel_iff, List.length_flatMap, List.length_flatMap] at hlen
      refine absurd hlen (Nat.ne_of_lt (List.sum_lt_sum _ _ (fun a _ => ?_) ⟨b, hb, ?_⟩)) <;>
        simp [Block.text]
  · rintro ⟨f, g, hfg, hne⟩
    by_contra h
    refine hne (mapBlocks_congr fun u hu => hfg u ?_)
    rintro rfl
    exact h hu

/-! ## Changed lines -/

/-- A change that keeps texts balanced leaves a line the brace that it does not close, or none. -/
theorem unclosedBrace?_mapBlocks_eq_none_iff {f : Text → Text} (hf : ∀ t, Closed t → Closed (f t))
    (s : Text) : unclosedBrace? (mapBlocks f s) = none ↔ unclosedBrace? s = none := by
  rw [unclosedBrace?, unclosedBrace?, Option.map_eq_none_iff, Option.map_eq_none_iff,
    blockLine_mapBlocks hf]

/-- Changing the blocks of a line is a map over its inner texts, which are balanced: changing nothing
gives the line, and if the first of two changes keeps texts balanced they are one change, and the
changed line has an unclosed brace exactly when the line has one. -/
theorem mapBlocks_functorial (s : Text) :
    mapBlocks id s = s ∧
      (∀ t, t ∈ blockInners s ↔ Consults s t) ∧ (∀ t ∈ blockInners s, Balanced t) ∧
      ∀ f g : Text → Text, (∀ t, Balanced t → Balanced (f t)) →
        mapBlocks g (mapBlocks f s) = mapBlocks (g ∘ f) s ∧
          (unclosedBrace? (mapBlocks f s) = none ↔ unclosedBrace? s = none) := by
  refine ⟨?_, fun t => mem_blockInners_iff, fun t => balanced_of_mem_blockInners, ?_⟩
  · rw [mapBlocks_eq, ← blockLine_eq]
  · intro f g hf
    have hclosed : ∀ t, Closed t → Closed (f t) := fun t ht =>
      closed_iff_balanced.2 (hf t (closed_iff_balanced.1 ht))
    exact ⟨mapBlocks_mapBlocks hclosed g s, unclosedBrace?_mapBlocks_eq_none_iff hclosed s⟩

/-- Blocks with a quote and with braces inside, wrapped in braces and then reversed; the brace behind
them stays open. -/
theorem mapBlocks_functorial_wrapped :
    (∀ t, Balanced t → Balanced (openBrace :: t ++ [closeBrace])) ∧
      blockInners (bytes "'\x7b' a \x7bx \"\x7d b\x7b\x7by\x7d\x7d c \x7bz")
        = [bytes "x \"", bytes "\x7by\x7d"] ∧
      mapBlocks List.reverse (mapBlocks (fun t => openBrace :: t ++ [closeBrace])
        (bytes "'\x7b' a \x7bx \"\x7d b\x7b\x7by\x7d\x7d c \x7bz"))
        = bytes "'\x7b' a \x7b\x7d\" x\x7b\x7d b\x7b\x7d\x7dy\x7b\x7b\x7d c \x7bz" ∧
      unclosedBrace? (mapBlocks (fun t => openBrace :: t ++ [closeBrace])
        (bytes "'\x7b' a \x7bx \"\x7d b\x7b\x7by\x7d\x7d c \x7bz")) ≠ none := by
  have hwrap : ∀ t, Balanced t → Balanced (openBrace :: t ++ [closeBrace]) := fun _ => Balanced.block
  obtain ⟨-, -, -, hmap⟩ :=
    mapBlocks_functorial (bytes "'\x7b' a \x7bx \"\x7d b\x7b\x7by\x7d\x7d c \x7bz")
  obtain ⟨htwice, hunclosed⟩ := hmap (fun t => openBrace :: t ++ [closeBrace]) List.reverse hwrap
  refine ⟨hwrap, by decide, ?_, ?_⟩
  · rw [htwice]
    decide
  · rw [Ne, hunclosed]
    decide

end GrammarLayout
