import GrammarLayout.Grammar.Braces
import Mathlib.Data.List.TakeWhile

/-!
# Cutting a line at braces and pipes

The functions that look for blocks and alternatives in a line return positions
and parts.  Here the parts are put back together.

What is proved here:

* `firstBlock?_eq`, `blockLine_eq` — a line is the text before each complete
  block, the block, and the tail;
* `unclosedBrace?_eq` — the position of an unclosed block holds a brace;
* `splitInline?_eq` — a production with a block at its end;
* `alternatives_eq` — the alternatives of a line, with a pipe before each but
  the first, are the line.
-/

namespace GrammarLayout

open Ascii Text

/-! ## Positions -/

theorem openingBraceFrom_eq {q : Quoting} {s : Text} {i : Nat} (h : openingBraceFrom q s = some i) :
    ∃ rest, s = s.take i ++ openBrace :: rest ∧ i < s.length := by
  induction s generalizing q i with
  | nil => simp [openingBraceFrom] at h
  | cons c s ih =>
    rw [openingBraceFrom] at h
    split at h
    · rename_i hc
      obtain rfl : 0 = i := by simpa using h
      exact ⟨s, by rw [hc.2]; rfl, by simp⟩
    · obtain ⟨j, hj, rfl⟩ := Option.map_eq_some_iff.1 h
      obtain ⟨rest, hrest, hlt⟩ := ih hj
      refine ⟨rest, ?_, by simpa using hlt⟩
      rw [List.take_succ_cons, List.cons_append, ← hrest]

theorem closingBraceFrom_eq {d : Int} {s : Text} {k : Nat} (h : closingBraceFrom d s = some k) :
    ∃ rest, s = s.take k ++ closeBrace :: rest ∧ k < s.length := by
  induction s generalizing d k with
  | nil => simp [closingBraceFrom] at h
  | cons c s ih =>
    have hstep : ∀ {d' : Int}, (closingBraceFrom d' s).map (· + 1) = some k →
        ∃ rest, c :: s = (c :: s).take k ++ closeBrace :: rest ∧ k < (c :: s).length := by
      intro d' hd
      obtain ⟨j, hj, rfl⟩ := Option.map_eq_some_iff.1 hd
      obtain ⟨rest, hrest, hlt⟩ := ih hj
      refine ⟨rest, ?_, by simpa using hlt⟩
      rw [List.take_succ_cons, List.cons_append, ← hrest]
    rw [closingBraceFrom] at h
    split at h
    · exact hstep h
    · split at h
      · rename_i hc
        split at h
        · obtain rfl : 0 = k := by simpa using h
          exact ⟨s, by rw [hc]; rfl, by simp⟩
        · exact hstep h
      · exact hstep h

/-! ## Blocks -/

/-- A complete block, the text in front of it and the text after it make up the line. -/
theorem firstBlock?_eq {s rest : Text} {b : Block} (h : firstBlock? s = some (b, rest)) :
    s = b.before ++ (openBrace :: b.inner ++ closeBrace :: rest) := by
  simp only [firstBlock?, Option.bind_eq_bind, Option.bind_eq_some_iff, Option.some.injEq,
    Prod.mk.injEq] at h
  obtain ⟨i, hi, j, hj, rfl, rfl⟩ := h
  obtain ⟨after, hopen, hlt⟩ := openingBraceFrom_eq hi
  obtain ⟨k, hk, rfl⟩ := Option.map_eq_some_iff.1 hj
  have hdrop : s.drop i = openBrace :: after := by
    conv => lhs; rw [hopen]
    rw [List.drop_left' (by rw [List.length_take]; omega)]
  rw [hdrop] at hk
  obtain ⟨tail, hclose, hklt⟩ := closingBraceFrom_eq hk
  obtain ⟨m, rfl⟩ : ∃ m, k = m + 1 := by
    cases k with
    | zero =>
      rw [List.take_zero, List.nil_append, List.cons.injEq] at hclose
      exact absurd hclose.1 (by decide)
    | succ m => exact ⟨m, rfl⟩
  rw [List.take_succ_cons, List.cons_append, List.cons.injEq] at hclose
  have hmid : (s.take (m + 1 + i)).drop (i + 1) = after.take m := by
    rw [List.drop_take, show m + 1 + i - (i + 1) = m by omega, ← List.drop_drop, hdrop]
    rfl
  have hend : s.drop (m + 1 + i + 1) = tail := by
    rw [show m + 1 + i + 1 = i + (1 + (m + 1)) by omega, ← List.drop_drop, hdrop,
      ← List.drop_drop, List.drop_succ_cons, List.drop_zero, hclose.2]
    simp only [List.length_cons] at hklt
    rw [← List.drop_drop, List.drop_left' (by rw [List.length_take]; omega)]
    rfl
  rw [hmid, hend, List.cons_append, ← hclose.2, ← hopen]

theorem firstBlock?_length {s rest : Text} {b : Block} (h : firstBlock? s = some (b, rest)) :
    rest.length < s.length := by
  rw [firstBlock?_eq h]
  simp
  omega

/-- A complete block as it stands in a line, behind the text in front of it. -/
def Block.text (f : Text → Text) (b : Block) : Text :=
  b.before ++ openBrace :: f b.inner ++ [closeBrace]

theorem blockLineWithin_eq (fuel : Nat) (s : Text) :
    s = (blockLineWithin fuel s).blocks.flatMap (Block.text id) ++ (blockLineWithin fuel s).tail := by
  induction fuel generalizing s with
  | zero => rfl
  | succ fuel ih =>
    rw [blockLineWithin]
    split
    · rfl
    · rename_i b rest hb
      have hs := firstBlock?_eq hb
      rw [List.flatMap_cons, List.append_assoc, ← ih rest]
      conv => lhs; rw [hs]
      simp [Block.text]

/-- The complete blocks of a line and its tail make up the line. -/
theorem blockLine_eq (s : Text) :
    s = (blockLine s).blocks.flatMap (Block.text id) ++ (blockLine s).tail :=
  blockLineWithin_eq s.length s

theorem blockLine_of_firstBlock?_eq_none {s : Text} (h : firstBlock? s = none) :
    blockLine s = ⟨[], s⟩ := by
  rw [blockLine]
  cases s.length with
  | zero => rfl
  | succ n => rw [blockLineWithin, h]

/-- On a line without a complete block the first brace is the one that stays open. -/
theorem unclosedBrace?_of_firstBlock? {s : Text} (h : firstBlock? s = none) :
    unclosedBrace? s = openingBrace? s := by
  simp [unclosedBrace?, blockLine_of_firstBlock?_eq_none h]

theorem firstBlock?_of_openingBrace? {s : Text} (h : openingBrace? s = none) :
    firstBlock? s = none := by
  simp [firstBlock?, h]

theorem mapBlocks_eq (f : Text → Text) (s : Text) :
    mapBlocks f s = (blockLine s).blocks.flatMap (Block.text f) ++ (blockLine s).tail := rfl

/-- The position of an unclosed block holds an opening brace. -/
theorem unclosedBrace?_eq {s : Text} {i : Nat} (h : unclosedBrace? s = some i) :
    ∃ rest, s = s.take i ++ openBrace :: rest := by
  obtain ⟨j, hj, rfl⟩ := Option.map_eq_some_iff.1 h
  obtain ⟨rest, hrest, hlt⟩ := openingBraceFrom_eq hj
  have hs := blockLine_eq s
  generalize (blockLine s).blocks.flatMap (Block.text id) = front at hs
  generalize (blockLine s).tail = tail at hs hrest hlt
  refine ⟨rest, ?_⟩
  have hlen : s.length - tail.length = front.length := by
    rw [hs, List.length_append]
    omega
  have htake : s.take (j + (s.length - tail.length)) = front ++ tail.take j := by
    rw [hlen, Nat.add_comm, hs, List.take_length_add_append]
  rw [htake, List.append_assoc, ← hrest, ← hs]

/-- A production with a block at its end is the text before the block, blanks, the block, and white
space. -/
theorem splitInline?_eq {p before inner : Text} (h : splitInline? p = some (before, inner)) :
    ∃ b rest, firstBlock? p = some (b, rest) ∧ isSpaces rest = true ∧
      before = trimBlanksEnd b.before ∧ inner = b.inner := by
  simp only [splitInline?, Option.bind_eq_bind, Option.bind_eq_some_iff] at h
  obtain ⟨⟨b, rest⟩, hb, hsplit⟩ := h
  simp only at hsplit
  split at hsplit
  · rename_i hrest
    simp only [Option.some.injEq, Prod.mk.injEq] at hsplit
    exact ⟨b, rest, hb, hrest, hsplit.1.symm, hsplit.2.symm⟩
  · exact absurd hsplit (by simp)

/-! ## Alternatives -/

theorem alternativesFrom_eq (q : Quoting) (d : Int) (s : Text) :
    s = (alternativesFrom q d s).1 ++ (alternativesFrom q d s).2.flatMap (pipe :: ·) := by
  induction s generalizing q d with
  | nil => rfl
  | cons c s ih =>
    simp only [alternativesFrom]
    split
    · rw [List.cons_append, ← ih]
    · split
      · rw [List.cons_append, ← ih]
      · split
        · rw [List.cons_append, ← ih]
        · split
          · simp
          · split
            · rename_i hc
              rw [List.flatMap_cons, List.nil_append, List.cons_append, ← ih, hc.1]
            · rw [List.cons_append, ← ih]

/-- The alternatives of a line, with a pipe before each but the first, are the line. -/
theorem alternatives_eq (s : Text) :
    s = (alternatives s).1 ++ (alternatives s).2.flatMap (pipe :: ·) :=
  alternativesFrom_eq .code 0 s

end GrammarLayout
