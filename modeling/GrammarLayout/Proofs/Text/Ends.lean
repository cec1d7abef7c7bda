import GrammarLayout.Proofs.Text.Lines
import GrammarLayout.Proofs.Text.Trim

/-!
# The ends of a text

A text is trimmed if its first and its last character are visible.  Both are
kept by every change in the middle of the text.

What is proved here:

* `trim_eq_self_iff` — trimming keeps the texts with visible ends, and only
  those;
* `trim_trim`, `trimEndWhile_trimEndWhile` — trimming twice is trimming once;
* `startsVisible_append_cons`, `endsVisible_append_cons` — the ends of a text
  depend on what stands outside a byte in its middle.
-/

namespace GrammarLayout

namespace Text

open Ascii

/-! ## Cutting bytes off the end -/

/-- What is left when an end is trimmed ends in a byte that is not trimmed. -/
theorem trimEndWhile_eq_nil_or_concat (p : UInt8 → Bool) (s : Text) :
    trimEndWhile p s = [] ∨ ∃ t c, p c = false ∧ trimEndWhile p s = t ++ [c] := by
  have hhead := List.head?_dropWhile_not p s.reverse
  rw [trimEndWhile]
  cases hs : s.reverse.dropWhile p with
  | nil => exact Or.inl rfl
  | cons c t =>
    rw [hs] at hhead
    exact Or.inr ⟨t.reverse, c, by simpa using hhead, by simp⟩

theorem trimEndWhile_append_of_forall {p : UInt8 → Bool} {w : Text} (hw : ∀ c ∈ w, p c = true)
    (s : Text) : trimEndWhile p (s ++ w) = trimEndWhile p s := by
  rw [trimEndWhile, List.reverse_append,
    List.dropWhile_append_of_pos fun c hc => hw c (List.mem_reverse.1 hc)]
  rfl

theorem trimEndWhile_append_of_ne_nil {p : UInt8 → Bool} {s : Text} (h : trimEndWhile p s ≠ [])
    (t : Text) : trimEndWhile p (t ++ s) = t ++ trimEndWhile p s := by
  rcases trimEndWhile_eq_nil_or_concat p s with hnil | ⟨u, c, hc, hlast⟩
  · exact absurd hnil h
  · obtain ⟨w, hs, hw⟩ := exists_trimEndWhile p s
    conv_lhs => rw [hs, hlast, ← List.append_assoc, trimEndWhile_append_of_forall hw,
      ← List.append_assoc, trimEndWhile_concat hc]
    rw [hlast, List.append_assoc]

theorem trimEndWhile_trimEndWhile (p : UInt8 → Bool) (s : Text) :
    trimEndWhile p (trimEndWhile p s) = trimEndWhile p s := by
  obtain ⟨w, hs, hw⟩ := exists_trimEndWhile p s
  conv_rhs => rw [hs, trimEndWhile_append_of_forall hw]

theorem trimBlanksEnd_trimBlanksEnd (s : Text) :
    trimBlanksEnd (trimBlanksEnd s) = trimBlanksEnd s := trimEndWhile_trimEndWhile isBlank s

/-- A text whose end keeps one class of bytes away keeps a smaller class away. -/
theorem trimEndWhile_eq_self_of_imp {p q : UInt8 → Bool} (hpq : ∀ c, p c = true → q c = true)
    {s : Text} (h : trimEndWhile q s = s) : trimEndWhile p s = s := by
  rcases trimEndWhile_eq_nil_or_concat q s with hnil | ⟨t, c, hc, hlast⟩
  · rw [← h, hnil]
    rfl
  · have hp : p c = false := by
      rw [Bool.eq_false_iff] at hc ⊢
      exact fun hpc => hc (hpq c hpc)
    rw [← h, hlast]
    exact trimEndWhile_concat hp t

/-- Behind a byte that is trimmed stands something that is not. -/
theorem trimEndWhile_append_cons_eq_self_iff {p : UInt8 → Bool} {c : UInt8} (hc : p c = true)
    {s t : Text} :
    trimEndWhile p (s ++ c :: t) = s ++ c :: t ↔ trimEndWhile p t = t ∧ t ≠ [] := by
  constructor
  · intro h
    by_cases ht : trimEndWhile p t = []
    · have hcut : trimEndWhile p (s ++ c :: t) = trimEndWhile p s := by
        refine trimEndWhile_append_of_forall (fun b hb => ?_) s
        rcases List.mem_cons.1 hb with rfl | hb
        · exact hc
        · exact trimEndWhile_eq_nil_iff.1 ht b hb
      obtain ⟨w, hs, -⟩ := exists_trimEndWhile p s
      have hlen := congrArg List.length (hcut.symm.trans h)
      have hlen' := congrArg List.length hs
      simp only [List.length_append, List.length_cons] at hlen hlen'
      omega
    · rw [List.append_cons, trimEndWhile_append_of_ne_nil ht, List.append_cancel_left_eq] at h
      exact ⟨h, fun hnil => ht (by rw [hnil]; rfl)⟩
  · rintro ⟨ht, hne⟩
    rw [List.append_cons, trimEndWhile_append_of_ne_nil (by rwa [ht]), ht]

/-! ## Indentation -/

theorem head?_trimBlanksStart (l : Text) : ∀ c ∈ (trimBlanksStart l).head?, isBlank c = false := by
  intro c hc
  have hhead := List.head?_dropWhile_not isBlank l
  rw [Option.mem_def, trimBlanksStart] at hc
  rwa [hc] at hhead

section Indentation

variable {w s : Text} (hw : ∀ c ∈ w, isBlank c = true) (hs : ∀ c ∈ s.head?, isBlank c = false)
include hw hs

theorem leadingBlanks_append : leadingBlanks (w ++ s) = w := by
  rw [leadingBlanks, List.takeWhile_append_of_pos hw]
  cases s with
  | nil => simp
  | cons c s => simp [hs c rfl]

theorem trimBlanksStart_append : trimBlanksStart (w ++ s) = s := by
  rw [trimBlanksStart, List.dropWhile_append_of_pos hw]
  cases s with
  | nil => rfl
  | cons c s => simp [hs c rfl]

end Indentation

/-! ## Visible ends -/

/-- The text is empty or starts with a visible character. -/
def StartsVisible (s : Text) : Prop := ∀ r ∈ (pieces s).head?, r.isSpace = false

/-- The text is empty or ends with a visible character. -/
def EndsVisible (s : Text) : Prop := ∀ r ∈ (pieces s).getLast?, r.isSpace = false

theorem startsVisible_nil : StartsVisible [] := by simp [StartsVisible]

theorem endsVisible_nil : EndsVisible [] := by simp [EndsVisible]

/-- Trimming keeps the texts with visible ends. -/
theorem trim_eq_self_iff {s : Text} : trim s = s ↔ StartsVisible s ∧ EndsVisible s := by
  constructor
  · intro h
    obtain ⟨_, _, -, -, -, -, hhead, hlast⟩ := trim_split s
    rw [h] at hhead hlast
    exact ⟨hhead, hlast⟩
  · rintro ⟨hhead, hlast⟩
    have hkept : ∀ rs : List Piece, (∀ r ∈ rs.head?, r.isSpace = false) →
        rs.dropWhile Piece.isSpace = rs := by
      intro rs hrs
      cases rs with
      | nil => rfl
      | cons r rs => exact List.dropWhile_cons_of_neg (by simp [hrs r rfl])
    rw [trim, hkept _ hhead, hkept, List.reverse_reverse, ofPieces_pieces]
    rwa [List.head?_reverse]

theorem trim_trim (s : Text) : trim (trim s) = trim s := by
  obtain ⟨_, _, -, -, -, -, hhead, hlast⟩ := trim_split s
  exact trim_eq_self_iff.2 ⟨hhead, hlast⟩

theorem startsVisible_trim (s : Text) : StartsVisible (trim s) :=
  (trim_eq_self_iff.1 (trim_trim s)).1

theorem endsVisible_trim (s : Text) : EndsVisible (trim s) := (trim_eq_self_iff.1 (trim_trim s)).2

/-- White space with a visible end is empty. -/
theorem eq_nil_of_isSpaces {w : Text} (hw : isSpaces w = true)
    (hends : StartsVisible w ∨ EndsVisible w) : w = [] := by
  rw [← pieces_eq_nil_iff]
  rw [isSpaces, List.all_eq_true] at hw
  rcases hends with h | h
  · cases hs : pieces w with
    | nil => rfl
    | cons r rs => exact absurd (hw r (by simp [hs])) (by simp [h r (by simp [hs])])
  · rcases List.eq_nil_or_concat (pieces w) with hs | ⟨rs, r, hs⟩
    · exact hs
    · exact absurd (hw r (by simp [hs])) (by simp [h r (by simp [hs])])

section Middle

variable {c : UInt8} (hc : c < 0x80)
include hc

theorem startsVisible_append_cons (hv : isWhiteSpace c.toNat = false) {a b : Text} :
    StartsVisible (a ++ c :: b) ↔ StartsVisible a := by
  rw [StartsVisible, seam_ascii_cons hc a b, StartsVisible]
  cases pieces a with
  | nil => simp [pieces_ascii_cons hc, Piece.isSpace, hv]
  | cons r rs => rfl

theorem endsVisible_append_cons (hv : isWhiteSpace c.toNat = false) {a b : Text} :
    EndsVisible (a ++ c :: b) ↔ EndsVisible b := by
  rw [EndsVisible, seam_ascii_cons hc a b, pieces_ascii_cons hc, EndsVisible, List.getLast?_append,
    List.getLast?_cons]
  rcases List.eq_nil_or_concat (pieces b) with hb | ⟨rs, r, hb⟩
  · simp [hb, Piece.isSpace, hv]
  · simp [hb]

/-- The first character of a text is that of any part in front of a byte. -/
theorem StartsVisible.of_append_cons {a b : Text} (ha : a ≠ []) :
    StartsVisible (a ++ c :: b) ↔ StartsVisible a := by
  rw [StartsVisible, seam_ascii_cons hc a b, StartsVisible]
  cases hs : pieces a with
  | nil => exact absurd (pieces_eq_nil_iff.1 hs) ha
  | cons r rs => rfl

/-- The last character of a text is that of any part behind a byte. -/
theorem EndsVisible.of_append_cons {a b : Text} (hb : b ≠ []) :
    EndsVisible (a ++ c :: b) ↔ EndsVisible b := by
  rw [EndsVisible, seam_ascii_cons hc a b, pieces_ascii_cons hc, EndsVisible]
  rcases List.eq_nil_or_concat (pieces b) with hnil | ⟨rs, r, hs⟩
  · exact absurd (pieces_eq_nil_iff.1 hnil) hb
  · simp [hs, List.getLast?_cons]

end Middle

/-- A visible start is not a blank. -/
theorem StartsVisible.head? {s : Text} (h : StartsVisible s) :
    ∀ c ∈ s.head?, isBlank c = false := by
  intro c hc
  obtain ⟨t, rfl⟩ := List.head?_eq_some_iff.1 hc
  rw [Bool.eq_false_iff]
  intro hblank
  have hspace := isAsciiSpace_of_isBlank hblank
  have := h ⟨some c.toNat, [c]⟩ (by rw [pieces_ascii_cons (lt_of_isAsciiSpace hspace)]; rfl)
  rw [isSpace_ascii hspace] at this
  exact absurd this (by decide)

/-- Layout stands behind no visible end. -/
theorem EndsVisible.trimLayout {s : Text} (h : EndsVisible s) : trimEndWhile isLayout s = s := by
  obtain ⟨w, hs, hw⟩ := exists_trimEndWhile isLayout s
  rcases List.eq_nil_or_concat w with rfl | ⟨w', c, rfl⟩
  · rwa [List.append_nil, eq_comm] at hs
  · have hspace := isAsciiSpace_of_isLayout (hw c (by simp))
    have hlast : pieces s = pieces (trimEndWhile isLayout s ++ w') ++ [⟨some c.toNat, [c]⟩] := by
      conv_lhs => rw [hs, List.concat_eq_append, ← List.append_assoc]
      rw [seam_ascii_cons (lt_of_isAsciiSpace hspace), pieces_ascii_cons (lt_of_isAsciiSpace hspace)]
      rfl
    have := h ⟨some c.toNat, [c]⟩ (by rw [hlast]; simp)
    rw [isSpace_ascii hspace] at this
    exact absurd this (by decide)

/-- Blanks cut off the end leave the start visible. -/
theorem StartsVisible.trimBlanksEnd {s : Text} (h : StartsVisible s) (hne : s ≠ []) :
    trimBlanksEnd s ≠ [] ∧ StartsVisible (trimBlanksEnd s) := by
  have hkept : Text.trimBlanksEnd s ≠ [] := fun hnil =>
    hne (eq_nil_of_isSpaces (isSpaces_of_blanks (trimEndWhile_eq_nil_iff.1 hnil)) (Or.inl h))
  refine ⟨hkept, ?_⟩
  obtain ⟨w, hs, hw⟩ := exists_trimEndWhile isBlank s
  cases w with
  | nil =>
    rw [List.append_nil] at hs
    rwa [hs] at h
  | cons c w =>
    have hascii := lt_of_isAsciiSpace (isAsciiSpace_of_isBlank (hw c List.mem_cons_self))
    rw [hs] at h
    exact (StartsVisible.of_append_cons hascii hkept).1 h

end Text

end GrammarLayout
