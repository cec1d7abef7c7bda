import GrammarLayout.Proofs.Grammar.Reread
import GrammarLayout.Proofs.Idempotent.Parsed
import GrammarLayout.Proofs.Text.Alphabet

/-!
# Legible lines

The reader looks at the ends of a line, at the name in front of its first
colon, and at its braces, quotes and pipes.  White space plays a small part in
this, so most of what keeps a line from being taken for something else can be
said of its ink.

What is proved here:

* `header?_words`, `header?_eq_none_of_ink` — headers, with white space and
  without;
* `IsBodyLine`, `Scan.line_of_isBodyLine` — a line that is read in the body of a rule.
-/

namespace GrammarLayout

open Ascii Text

/-! ## Headers -/

theorem isWord_of_isWhiteSpace {v : Nat} (h : isWhiteSpace v = true) : isWord v = false := by
  simp only [isWhiteSpace, Bool.or_eq_true, Bool.and_eq_true, decide_eq_true_eq, beq_iff_eq] at h
  have hall : ∀ v ∈ [0x09, 0x0A, 0x0B, 0x0C, 0x0D, 0x20, 0x85, 0xA0, 0x1680, 0x2000, 0x2001, 0x2002,
      0x2003, 0x2004, 0x2005, 0x2006, 0x2007, 0x2008, 0x2009, 0x200A, 0x2028, 0x2029, 0x202F, 0x205F,
      0x3000], isWord v = false := by
    decide +kernel
  refine hall v ?_
  simp only [List.mem_cons, List.not_mem_nil, or_false]
  omega

theorem Piece.isSpace_of_isWord {p : Piece} (h : p.isWord = true) : p.isSpace = false := by
  unfold Piece.isWord at h
  unfold Piece.isSpace
  cases hcode : p.code with
  | none => rfl
  | some v =>
    rw [hcode, Option.any_some] at h
    rw [Option.any_some, ← Bool.not_eq_true]
    intro hspace
    rw [isWord_of_isWhiteSpace hspace] at h
    exact absurd h (by decide)

/-- A name is all ink. -/
theorem ink_of_words {name : Text} (h : ∀ p ∈ pieces name, p.isWord = true) : ink name = name := by
  have hall : (pieces name).filter (fun p => !p.isSpace) = pieces name := by
    rw [List.filter_eq_self]
    intro p hp
    rw [Piece.isSpace_of_isWord (h p hp)]
    rfl
  rw [ink, hall, ofPieces_pieces]

theorem isWord_of_isHeaderSpace {c : UInt8} (h : isHeaderSpace c = true) :
    c < 0x80 ∧ isWordByte c = false := by
  simp only [isHeaderSpace, Bool.or_eq_true, beq_iff_eq] at h
  rcases h with (((rfl | rfl) | rfl) | rfl) | rfl <;> decide

section Words

variable {name : Text} (hname : ∀ p ∈ pieces name, p.isWord = true)
include hname

/-- A name starts with a byte of a word, if it starts with an ASCII byte. -/
theorem isWordByte_of_head? {c : UInt8} (hc : c ∈ name.head?) (hascii : c < 0x80) :
    isWordByte c = true := by
  obtain ⟨t, rfl⟩ := List.head?_eq_some_iff.1 hc
  have hword := hname ⟨some c.toNat, [c]⟩ (by rw [pieces_ascii_cons hascii]; exact List.mem_cons_self)
  exact hword

theorem takeWhile_isWord_words {c : UInt8} (hascii : c < 0x80) (hc : isWordByte c = false)
    (t : Text) : ofPieces ((pieces (name ++ c :: t)).takeWhile Piece.isWord) = name := by
  have hnone : Piece.isWord ⟨some c.toNat, [c]⟩ = false := hc
  rw [seam_ascii_cons hascii, List.takeWhile_append_of_pos hname, pieces_ascii_cons hascii,
    List.takeWhile_cons_of_neg (by rw [hnone]; decide), List.append_nil, ofPieces_pieces]

/-- A name and a colon between blanks make a header. -/
theorem header?_words (hne : name ≠ []) {v w : Text} (hv : ∀ c ∈ v, isHeaderSpace c = true)
    (hw : ∀ c ∈ w, isHeaderSpace c = true) (rest : Text) :
    header? (v ++ (name ++ (w ++ colon :: rest))) = some (name, rest) := by
  obtain ⟨c, t, hnamed⟩ := List.exists_cons_of_ne_nil hne
  have hc : isHeaderSpace c = false := by
    rw [← Bool.not_eq_true]
    intro hspace
    obtain ⟨hascii, hword⟩ := isWord_of_isHeaderSpace hspace
    rw [isWordByte_of_head? hname (by rw [hnamed]; rfl) hascii] at hword
    exact absurd hword (by decide)
  have hstart : (v ++ (name ++ (w ++ colon :: rest))).dropWhile isHeaderSpace
      = name ++ (w ++ colon :: rest) := by
    rw [List.dropWhile_append_of_pos hv, hnamed, List.cons_append,
      List.dropWhile_cons_of_neg (by rw [hc]; decide)]
  have hword : ofPieces ((pieces (name ++ (w ++ colon :: rest))).takeWhile Piece.isWord) = name := by
    cases w with
    | nil => exact takeWhile_isWord_words hname (by decide) (by decide) rest
    | cons b w =>
      obtain ⟨hascii, hb⟩ := isWord_of_isHeaderSpace (hw b List.mem_cons_self)
      exact takeWhile_isWord_words hname hascii hb (w ++ colon :: rest)
  have hcolon : (w ++ colon :: rest).dropWhile isHeaderSpace = colon :: rest := by
    rw [List.dropWhile_append_of_pos hw]
    rfl
  rw [header?]
  simp only [hstart, hword, List.drop_left, hcolon]
  simp [hne]

end Words

/-- A header is one without its white space, too. -/
theorem header?_ink {l name rest : Text} (h : header? l = some (name, rest)) :
    header? (ink l) = some (name, ink rest) := by
  obtain ⟨w₁, w₂, rfl, hw₁, hw₂, hne⟩ := header?_eq h
  have hname := isWord_of_mem_pieces_name h
  rw [ink_spaces_append hw₁, ← List.append_assoc, ink_append_colon, ink_append_spaces hw₂,
    ink_of_words hname]
  exact header?_words hname hne (v := []) (w := []) (by simp) (by simp) (ink rest)

theorem header?_eq_none_of_ink {l : Text} (h : header? (ink l) = none) : header? l = none := by
  by_contra hsome
  obtain ⟨⟨name, rest⟩, hheader⟩ := Option.ne_none_iff_exists'.1 hsome
  rw [header?_ink hheader] at h
  exact absurd h (by simp)

/-- What stands behind a brace plays no part in a header. -/
theorem header?_append_openBrace {s : Text} (h : header? s = none) (t : Text) :
    header? (s ++ openBrace :: t) = none := by
  by_contra hsome
  obtain ⟨⟨name, rest⟩, hheader⟩ := Option.ne_none_iff_exists'.1 hsome
  obtain ⟨w₁, w₂, hline, hw₁, hw₂, hne⟩ := header?_parts hheader
  have hread := fun x => header?_words (isWord_of_mem_pieces_name hheader) hne hw₁ hw₂ x
  have hspace : isHeaderSpace openBrace = false := by decide
  have hfront : openBrace ∉ w₁ ++ (name ++ (w₂ ++ [colon])) := by
    intro hmem
    simp only [List.mem_append, List.mem_singleton] at hmem
    rcases hmem with hmem | hmem | hmem | hmem
    · exact absurd (hw₁ _ hmem) (by rw [hspace]; decide)
    · exact absurd (isWordByte_of_mem_name hheader _ hmem (by decide)) (by decide)
    · exact absurd (hw₂ _ hmem) (by rw [hspace]; decide)
    · exact absurd hmem (by decide)
  have hcut : s ++ openBrace :: t = w₁ ++ (name ++ (w₂ ++ [colon])) ++ rest := by
    rw [hline]
    simp
  rcases List.append_eq_append_iff.1 hcut with ⟨x, hx, hrest⟩ | ⟨x, hx, -⟩
  · cases x with
    | nil =>
      rw [List.append_nil] at hx
      rw [← hx] at h
      exact absurd h (by rw [hread]; simp)
    | cons c x =>
      obtain ⟨rfl, -⟩ := List.cons.inj hrest
      exact hfront (by rw [hx]; simp)
  · have hheader' := hread x
    have hs : w₁ ++ (name ++ (w₂ ++ colon :: x)) = s := by
      rw [hx]
      simp
    rw [hs, h] at hheader'
    exact absurd hheader' (by simp)

/-! ## Lines of a body -/

namespace Text

/-- A byte that does not end a line. -/
abbrev InLine (c : UInt8) : Prop := c ≠ newline ∧ c ≠ carriageReturn

/-- A text within a line. -/
abbrev IsSingleLine (l : Text) : Prop := Over InLine l

theorem isSingleLine_iff {l : Text} : IsSingleLine l ↔ newline ∉ l ∧ carriageReturn ∉ l := by
  rw [← over_ne, ← over_ne]
  exact ⟨fun h => ⟨fun c hc => (h c hc).1, fun c hc => (h c hc).2⟩,
    fun h c hc => ⟨h.1 c hc, h.2 c hc⟩⟩

theorem isSingleLine_of_blanks {w : Text} (hw : ∀ c ∈ w, isBlank c = true) : IsSingleLine w := by
  intro c hc
  have hblank := hw c hc
  refine ⟨?_, ?_⟩ <;> rintro rfl <;> exact absurd hblank (by decide)

namespace IsSingleLine

variable {l : Text} (h : IsSingleLine l)
include h

theorem oneLine : newline ∉ l := (isSingleLine_iff.1 h).1

theorem trimTerminator_eq : trimTerminator (l ++ [newline]) = l :=
  trimTerminator_line h.oneLine fun hlast =>
    (isSingleLine_iff.1 h).2 (List.mem_of_getLast? hlast)

end IsSingleLine

end Text

/-- A line that is neither blank nor a comment, and opens nothing but parts of a rule. -/
structure IsBodyLine (l : Text) : Prop where
  /-- It is one line. -/
  single : IsSingleLine l
  /-- There is ink. -/
  inked : ink l ≠ []
  /-- It is no comment. -/
  noComment : (ink l).head? ≠ some hash
  /-- It opens no section after the grammar. -/
  noMarker : ¬ bytes "----" <+: ink l
  /-- It is no header. -/
  noHeader : header? (ink l) = none
  /-- It does not end the grammar. -/
  noEnd : ink l ≠ bytes "end"

theorem startsWith_trim_eq_false {c : UInt8} {l : Text} (h : (ink l).head? ≠ some c) :
    startsWith [c] (trim l) = false := by
  rw [← Bool.not_eq_true, startsWith_trim_iff]
  exact h

theorem isFooterMarker_eq_false {l : Text} (h : ¬ bytes "----" <+: ink l) :
    isFooterMarker l = false := by
  rw [← Bool.not_eq_true]
  intro hmarker
  obtain ⟨t, ht⟩ := List.isPrefixOf_iff_prefix.1 hmarker
  refine h ⟨ink t, ?_⟩
  have hink : ink (trim l) = bytes "----" ++ ink t := by
    rw [← ht]
    rfl
  rw [← hink, ink_trim]

namespace Scan

variable {closed : List Entry} {r : OpenRule} {n : Nat}

theorem line_of_isBodyLine {l : Text} {next : Scan} (h : IsBodyLine l)
    (hnext : (⟨closed, .body r, n + 1⟩ : Scan).bodyLine r l false = .ok (next, none)) :
    (⟨closed, .body r, n⟩ : Scan).line (l ++ [newline]) = .ok next := by
  have hempty : (trim l).isEmpty = false := by
    rw [isEmpty_trim, ← Bool.not_eq_true, ← ink_eq_nil_iff]
    exact h.inked
  have hend : trim l ≠ bytes "end" := by
    intro heq
    refine h.noEnd ?_
    rw [← ink_trim, heq]
    rfl
  refine line_of_segment ?_
  simp [segment, grammarLine, h.single.trimTerminator_eq, hempty, startsWith_trim_eq_false h.noComment,
    isFooterMarker_eq_false h.noMarker, header?_eq_none_of_ink h.noHeader, hend, hnext]

end Scan

end GrammarLayout
