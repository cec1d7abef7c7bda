import GrammarLayout.Proofs.Text.Lines

/-!
# Trimming a text at both ends

`trim` takes white space away at both ends of a text.  What stands before or
behind a text for no other purpose than layout does not show in what is left.

What is proved here:

* `trim_append_of_isSpaces` — white space at the end is trimmed away;
* `exists_of_trim_eq` — a byte of a trimmed text stands in the text itself, with
  the same text behind it;
* `Shifted.trim_eq` and its like — texts that are the same but for the blanks in
  front are the same when they are trimmed.
-/

namespace GrammarLayout

namespace Text

open Ascii

/-- White space at the end is trimmed away. -/
theorem trim_append_of_isSpaces {w : Text} (hw : isSpaces w = true) (s : Text) :
    trim (s ++ w) = trim s := by
  have hseam : Seam s w := seam_of_head (isContinuation_head_of_isSpaces hw)
  rw [isSpaces, List.all_eq_true] at hw
  unfold trim
  rw [hseam, List.dropWhile_append]
  split
  · rename_i hempty
    rw [List.isEmpty_iff] at hempty
    rw [hempty, List.dropWhile_eq_nil_iff.2 hw]
  · rw [List.reverse_append, List.dropWhile_append,
      List.dropWhile_eq_nil_iff.2 fun r hr => hw r (List.mem_reverse.1 hr)]
    rfl

theorem trim_append_spaces {w : Text} (hw : ∀ c ∈ w, isAsciiSpace c = true) (s : Text) :
    trim (s ++ w) = trim s := trim_append_of_isSpaces (ink_eq_nil_iff.1 (ink_of_spaces hw)) s

theorem trim_trimEndWhile {p : UInt8 → Bool} (hp : ∀ c, p c = true → isAsciiSpace c = true)
    (s : Text) : trim (trimEndWhile p s) = trim s := by
  obtain ⟨w, hs, hw⟩ := trimEndWhile_append hp s
  conv_rhs => rw [hs, trim_append_spaces hw]

theorem trim_trimBlanksEnd (s : Text) : trim (trimBlanksEnd s) = trim s :=
  trim_trimEndWhile (fun _ => isAsciiSpace_of_isBlank) s

theorem trim_trimLayout (s : Text) : trim (trimEndWhile isLayout s) = trim s :=
  trim_trimEndWhile (fun _ => isAsciiSpace_of_isLayout) s

/-- A line is what it is without its terminator, followed by white space. -/
theorem exists_terminator (raw : Text) :
    ∃ w, raw = trimTerminator raw ++ w ∧ ∀ c ∈ w, isAsciiSpace c = true :=
  trimEndWhile_append (fun _ => isAsciiSpace_of_terminator) raw

theorem trim_trimTerminator (raw : Text) : trim (trimTerminator raw) = trim raw :=
  trim_trimEndWhile (fun _ => isAsciiSpace_of_terminator) raw

/-- A byte of a trimmed text stands in the text itself, with the same text behind it up to white
space. -/
theorem exists_of_trim_eq {s a b : Text} {c : UInt8} (h : trim s = a ++ c :: b) :
    ∃ front tail, s = front ++ c :: tail ∧ trim tail = trim b := by
  obtain ⟨w₁, w₂, hs, -, hw₂, -⟩ := trim_split s
  refine ⟨w₁ ++ a, b ++ w₂, ?_, trim_append_of_isSpaces hw₂ b⟩
  rw [hs, h]
  simp

/-! ## Blanks in front -/

theorem isSpace_ascii {c : UInt8} (hc : isAsciiSpace c = true) :
    (⟨some c.toNat, [c]⟩ : Piece).isSpace = true := by
  rw [isAsciiSpace, Bool.and_eq_true] at hc
  simpa [Piece.isSpace] using hc.2

section Blanks

variable {w : Text} (hw : ∀ c ∈ w, isBlank c = true) (s : Text)
include hw

theorem pieces_blanks_append :
    pieces (w ++ s) = w.map (fun c => ⟨some c.toNat, [c]⟩) ++ pieces s := by
  induction w with
  | nil => rfl
  | cons c w ih =>
    have hc : c < 0x80 := lt_of_isAsciiSpace (isAsciiSpace_of_isBlank (hw c List.mem_cons_self))
    rw [List.cons_append, pieces_ascii_cons hc, ih fun x hx => hw x (List.mem_cons_of_mem c hx)]
    rfl

theorem isSpace_of_mem_blanks : ∀ r ∈ w.map (fun c => (⟨some c.toNat, [c]⟩ : Piece)),
    r.isSpace = true := by
  intro r hr
  obtain ⟨c, hc, rfl⟩ := List.mem_map.1 hr
  exact isSpace_ascii (isAsciiSpace_of_isBlank (hw c hc))

theorem trim_blanks_append : trim (w ++ s) = trim s := by
  unfold trim
  rw [pieces_blanks_append hw, List.dropWhile_append_of_pos (isSpace_of_mem_blanks hw)]

theorem isSpaces_blanks_append : isSpaces (w ++ s) = isSpaces s := by
  rw [isSpaces, pieces_blanks_append hw, List.all_append,
    List.all_eq_true.2 (isSpace_of_mem_blanks hw), Bool.true_and]
  rfl

theorem trimBlanksStart_blanks_append : trimBlanksStart (w ++ s) = trimBlanksStart s :=
  List.dropWhile_append_of_pos hw

/-- What is trimmed at the end stops at a blank, unless blanks are trimmed. -/
theorem trimEndWhile_blanks_append {p : UInt8 → Bool} (hp : ∀ c, isBlank c = true → p c = false) :
    trimEndWhile p (w ++ s) = w ++ trimEndWhile p s := by
  rcases List.eq_nil_or_concat w with rfl | ⟨w', c, rfl⟩
  · rfl
  · have hc : p c = false := hp c (hw c (by simp))
    rw [List.concat_eq_append, List.append_assoc, List.singleton_append,
      trimEndWhile_append_cons hc, List.append_assoc, List.singleton_append]

end Blanks

/-! ## Texts with other blanks in front -/

/-- The two texts are the same but for the blanks in front. -/
def Shifted (s t : Text) : Prop := trimBlanksStart s = trimBlanksStart t

theorem shifted_append {w w' : Text} (hw : ∀ c ∈ w, isBlank c = true)
    (hw' : ∀ c ∈ w', isBlank c = true) (s : Text) : Shifted (w ++ s) (w' ++ s) := by
  rw [Shifted, trimBlanksStart_blanks_append hw, trimBlanksStart_blanks_append hw']

namespace Shifted

variable {s t : Text}

theorem refl (s : Text) : Shifted s s := rfl

theorem exists_append (h : Shifted s t) : ∃ w w' rest, s = w ++ rest ∧ t = w' ++ rest ∧
    (∀ c ∈ w, isBlank c = true) ∧ (∀ c ∈ w', isBlank c = true) := by
  refine ⟨leadingBlanks s, leadingBlanks t, trimBlanksStart s, ?_, ?_, ?_, ?_⟩
  · exact List.takeWhile_append_dropWhile.symm
  · rw [h]
    exact List.takeWhile_append_dropWhile.symm
  · exact fun c hc => List.mem_takeWhile_imp hc
  · exact fun c hc => List.mem_takeWhile_imp hc

theorem trim_eq (h : Shifted s t) : trim s = trim t := by
  obtain ⟨w, w', rest, rfl, rfl, hw, hw'⟩ := h.exists_append
  rw [trim_blanks_append hw, trim_blanks_append hw']

theorem isSpaces_eq (h : Shifted s t) : isSpaces s = isSpaces t := by
  obtain ⟨w, w', rest, rfl, rfl, hw, hw'⟩ := h.exists_append
  rw [isSpaces_blanks_append hw, isSpaces_blanks_append hw']

theorem append (h : Shifted s t) (x : Text) : Shifted (s ++ x) (t ++ x) := by
  obtain ⟨w, w', rest, rfl, rfl, hw, hw'⟩ := h.exists_append
  rw [List.append_assoc, List.append_assoc]
  exact shifted_append hw hw' (rest ++ x)

theorem trimBlanksEnd (h : Shifted s t) :
    Shifted (Text.trimBlanksEnd s) (Text.trimBlanksEnd t) := by
  obtain ⟨w, w', rest, rfl, rfl, hw, hw'⟩ := h.exists_append
  by_cases hblank : ∀ c ∈ rest, isBlank c = true
  · have hall : ∀ {w : Text}, (∀ c ∈ w, isBlank c = true) →
        Text.trimBlanksEnd (w ++ rest) = [] := fun hw =>
      trimEndWhile_eq_nil_iff.2 fun c hc => (List.mem_append.1 hc).elim (hw c) (hblank c)
    rw [hall hw, hall hw']
    exact refl []
  · push Not at hblank
    obtain ⟨c, hc, hvisible⟩ := hblank
    obtain ⟨a, b, rfl⟩ := List.append_of_mem hc
    rw [Text.trimBlanksEnd, Text.trimBlanksEnd, ← List.append_assoc, ← List.append_assoc,
      trimEndWhile_append_cons (by simpa using hvisible),
      trimEndWhile_append_cons (by simpa using hvisible), List.append_assoc, List.append_assoc]
    exact shifted_append hw hw' _

theorem trimTerminator (h : Shifted s t) :
    Shifted (Text.trimTerminator s) (Text.trimTerminator t) := by
  obtain ⟨w, w', rest, rfl, rfl, hw, hw'⟩ := h.exists_append
  have hp : ∀ c : UInt8, isBlank c = true → (c == carriageReturn || c == newline) = false := by
    intro c hc
    simp only [isBlank, Bool.or_eq_true, beq_iff_eq] at hc
    rcases hc with rfl | rfl <;> decide
  rw [Text.trimTerminator, Text.trimTerminator, trimEndWhile_blanks_append hw rest hp,
    trimEndWhile_blanks_append hw' rest hp]
  exact shifted_append hw hw' _

end Shifted

end Text

end GrammarLayout
