import GrammarLayout.Proofs.Text.Lines

/-!
# Texts over an alphabet

A text is over an alphabet when all its bytes are of it.  Cutting a text never
leaves the alphabet, and writing stays in it as long as what is written is of
it: formatting writes signs and blanks besides what it read.

What is proved here:

* `Over.trim`, `Over.takeWhile`, … — parts of a text are over its alphabet;
* `over_join`, `Over.splitOn` — and so are texts put together from such parts;
* `LineSigns`, `Signs` — the alphabets with the signs of a line, and of a file.
-/

namespace GrammarLayout

open Ascii Text

namespace Text

/-- Every byte of the text is of the alphabet `S`. -/
def Over (S : UInt8 → Prop) (t : Text) : Prop := ∀ c ∈ t, S c

variable {S : UInt8 → Prop}

@[simp] theorem over_nil : Over S [] := by simp [Over]

@[simp] theorem over_cons {c : UInt8} {t : Text} : Over S (c :: t) ↔ S c ∧ Over S t :=
  List.forall_mem_cons

@[simp] theorem over_append {s t : Text} : Over S (s ++ t) ↔ Over S s ∧ Over S t :=
  List.forall_mem_append

theorem over_flatMap {α : Type} {f : α → Text} {l : List α} :
    Over S (l.flatMap f) ↔ ∀ a ∈ l, Over S (f a) := by
  simp only [Over, List.mem_flatMap]
  exact ⟨fun h a ha c hc => h c ⟨a, ha, hc⟩, fun h c ⟨a, ha, hc⟩ => h a ha c hc⟩

theorem over_replicate {n : Nat} {c : UInt8} (hc : S c) : Over S (List.replicate n c) := by
  intro b hb
  rwa [List.eq_of_mem_replicate hb]

theorem over_join {sep : Text} (hsep : Over S sep) {ps : List Text} (h : ∀ p ∈ ps, Over S p) :
    Over S (join sep ps) := by
  induction ps with
  | nil => exact over_nil
  | cons p ps ih =>
    have hfirst := h p List.mem_cons_self
    have hrest := ih fun q hq => h q (List.mem_cons_of_mem p hq)
    by_cases hps : ps = []
    · rw [hps]
      exact hfirst
    · rw [join_cons hps]
      exact over_append.2 ⟨over_append.2 ⟨hfirst, hsep⟩, hrest⟩

theorem mem_of_mem_splitOn {sep : UInt8} {s p : Text} (hp : p ∈ splitOn sep s) :
    ∀ c ∈ p, c ∈ s := by
  intro c hc
  rw [← join_splitOn sep s]
  generalize Text.splitOn sep s = parts at hp ⊢
  induction parts with
  | nil => simp at hp
  | cons q ps ih =>
    by_cases hps : ps = []
    · rw [hps] at hp ⊢
      rw [List.mem_singleton.1 hp] at hc
      exact hc
    · rw [join_cons hps, List.mem_append, List.mem_append]
      rcases List.mem_cons.1 hp with rfl | hp
      · exact Or.inl (Or.inl hc)
      · exact Or.inr (ih hp)

theorem mem_of_mem_lines {s l : Text} (hl : l ∈ lines s) : ∀ c ∈ l, c ∈ s := by
  intro c hc
  rw [← flatten_lines s]
  exact List.mem_flatten.2 ⟨l, hl, hc⟩

namespace Over

variable {s : Text} (h : Over S s)
include h

theorem of_subset {t : Text} (ht : ∀ c ∈ t, c ∈ s) : Over S t := fun c hc => h c (ht c hc)

theorem trim : Over S (trim s) := h.of_subset fun _ => mem_of_mem_trim

theorem trimEndWhile (p : UInt8 → Bool) : Over S (trimEndWhile p s) :=
  h.of_subset fun _ => mem_of_mem_trimEndWhile

theorem dropStart (t : Text) : Over S (dropStart t s) := h.of_subset fun _ => mem_of_mem_dropStart

theorem dropEnd (t : Text) : Over S (dropEnd t s) := h.of_subset fun _ => mem_of_mem_dropEnd

theorem takeWhile (p : UInt8 → Bool) : Over S (s.takeWhile p) :=
  h.of_subset fun _ hc => (List.takeWhile_sublist p).subset hc

theorem dropWhile (p : UInt8 → Bool) : Over S (s.dropWhile p) :=
  h.of_subset fun _ hc => (List.dropWhile_sublist p).subset hc

theorem take (n : Nat) : Over S (s.take n) := h.of_subset fun _ => List.mem_of_mem_take

theorem drop (n : Nat) : Over S (s.drop n) := h.of_subset fun _ => List.mem_of_mem_drop

theorem splitOn (sep : UInt8) : ∀ p ∈ splitOn sep s, Over S p :=
  fun _ hp => h.of_subset (mem_of_mem_splitOn hp)

theorem lines : ∀ l ∈ lines s, Over S l := fun _ hl => h.of_subset (mem_of_mem_lines hl)

end Over

/-! ## Signs -/

/-- The alphabet has the signs that are written in a line. -/
structure LineSigns (S : UInt8 → Prop) : Prop where
  /-- It has the space. -/
  space : S space
  /-- It has the pipe. -/
  pipe : S pipe
  /-- It has the opening brace. -/
  openBrace : S openBrace
  /-- It has the closing brace. -/
  closeBrace : S closeBrace

/-- The alphabet has the signs that are written in a file. -/
structure Signs (S : UInt8 → Prop) : Prop extends LineSigns S where
  /-- It has the tab. -/
  tab : S tab
  /-- It has the newline. -/
  newline : S newline
  /-- It has the colon. -/
  colon : S colon
  /-- It has the semicolon. -/
  semicolon : S semicolon

theorem Signs.over_blanks (hS : Signs S) {w : Text} (hw : ∀ c ∈ w, isBlank c = true) :
    Over S w := by
  intro c hc
  have hblank := hw c hc
  rw [isBlank, Bool.or_eq_true, beq_iff_eq, beq_iff_eq] at hblank
  rcases hblank with rfl | rfl
  · exact hS.space
  · exact hS.tab

/-- A text without a byte is over the alphabet of all others. -/
theorem over_ne {c : UInt8} {s : Text} : Over (· ≠ c) s ↔ c ∉ s := by
  exact ⟨fun h hc => h c hc rfl, fun h b hb hbc => h (hbc ▸ hb)⟩

theorem lineSigns_ne_newline : LineSigns (· ≠ Ascii.newline) :=
  ⟨by decide, by decide, by decide, by decide⟩

end Text

end GrammarLayout
