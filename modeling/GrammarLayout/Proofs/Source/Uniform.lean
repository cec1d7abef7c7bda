import GrammarLayout.Proofs.Source.Newline
import GrammarLayout.Source.File

/-!
# Files that come back as they were

A file is put back from its normalized content and its flags.  One flag tells of
all newlines alike whether a carriage return stands before them, so what comes
back is the file itself exactly when its newlines agree.  Carriage returns that
stand elsewhere, also in front of a line ending, and byte order marks behind the
first are text like any other.

What is proved here:

* `toCrlf_toNewlines_iff` — line endings are put back where they were exactly when
  every newline had one;
* `has_hadCrlf_normalize`, `has_hadBom_normalize` — what the flags tell;
* `SourceFile.restore_normalize_iff` — which contents come back as they were.
-/

namespace GrammarLayout

open Ascii Text

/-! ## Newlines that agree -/

/-- Every newline of the text stands directly behind a carriage return. -/
def AllCrlf (s : Text) : Prop :=
  ∀ u v, s = u ++ newline :: v → u.getLast? = some carriageReturn

/-- No newline of the text stands directly behind a carriage return. -/
def NoCrlf (s : Text) : Prop :=
  ∀ u v, s = u ++ newline :: v → u.getLast? ≠ some carriageReturn

/-- A line ending is found where it stands. -/
theorem hasCrlf_iff_infix (s : Text) : hasCrlf s = true ↔ [carriageReturn, newline] <:+: s := by
  induction s with
  | nil => simp [hasCrlf]
  | cons c s ih =>
    rw [hasCrlf, Bool.or_eq_true, Bool.and_eq_true, beq_iff_eq, beq_iff_eq, ih,
      List.infix_cons_iff]
    refine or_congr_left ⟨?_, ?_⟩
    · rintro ⟨rfl, hs⟩
      obtain ⟨t, rfl⟩ := List.head?_eq_some_iff.1 hs
      exact ⟨t, rfl⟩
    · rintro ⟨t, ht⟩
      obtain ⟨rfl, rfl⟩ := List.cons.inj ht
      exact ⟨rfl, rfl⟩

theorem noCrlf_iff (s : Text) : NoCrlf s ↔ hasCrlf s = false := by
  rw [← Bool.not_eq_true, hasCrlf_iff_infix]
  constructor
  · rintro h ⟨u, v, rfl⟩
    exact h (u ++ [carriageReturn]) v (by simp) (by simp)
  · rintro h u v rfl hlast
    obtain ⟨w, rfl⟩ := List.getLast?_eq_some_iff.1 hlast
    exact h ⟨w, v, by simp⟩

/-- Where line endings were put in, every newline has one. -/
theorem allCrlf_toCrlf (s : Text) : AllCrlf (toCrlf s) := by
  induction s with
  | nil =>
    intro u v h
    simp [toCrlf] at h
  | cons c s ih =>
    -- What stands before a newline of the rest is not empty.
    have hrest : ∀ u v, toCrlf s = u ++ newline :: v → ∀ w : Text,
        (w ++ u).getLast? = some carriageReturn := by
      intro u v h w
      rw [List.getLast?_append, ih u v h, Option.some_or]
    intro u v h
    by_cases hc : c = newline
    · rw [hc, toCrlf_newline] at h
      rcases u with _ | ⟨a, _ | ⟨b, u⟩⟩
      · exact absurd (List.cons.inj h).1 (by decide)
      · rw [(List.cons.inj h).1]
        rfl
      · exact hrest u v (List.cons.inj (List.cons.inj h).2).2 [a, b]
    · rw [toCrlf_cons_of_ne hc] at h
      rcases u with _ | ⟨a, u⟩
      · exact absurd (List.cons.inj h).1 hc
      · exact hrest u v (List.cons.inj h).2 [a]

/-- When every newline but one in front has a line ending, all of them are put back, and the one in
front is given one. -/
theorem toCrlf_toNewlines {s : Text}
    (h : ∀ u v, s = u ++ newline :: v → u ≠ [] → u.getLast? = some carriageReturn) :
    toCrlf (toNewlines s) = if s.head? = some newline then carriageReturn :: s else s := by
  induction s with
  | nil => rfl
  | cons c s ih =>
    have hs : toCrlf (toNewlines s)
        = if s.head? = some newline then carriageReturn :: s else s := by
      refine ih fun u v hsplit hu => ?_
      have hlast := h (c :: u) v (by rw [hsplit, List.cons_append]) (by simp)
      rwa [List.getLast?_cons_of_ne_nil hu] at hlast
    by_cases hnext : s.head? = some newline
    · obtain ⟨t, rfl⟩ := List.head?_eq_some_iff.1 hnext
      obtain rfl : c = carriageReturn := by simpa using h [c] t rfl
      rw [toNewlines, if_pos (by simp), hs, if_pos hnext, if_neg]
      exact fun hhead => absurd (Option.some.inj hhead) (by decide)
    · rw [toNewlines, if_neg (by simp [hnext]), List.head?_cons]
      rw [if_neg hnext] at hs
      by_cases hc : c = newline
      · rw [hc, toCrlf_newline, hs, if_pos rfl]
      · rw [toCrlf_cons_of_ne hc, hs, if_neg (by simpa using hc)]

/-- Line endings that were taken away are put back where they were exactly when every newline had
one. -/
theorem toCrlf_toNewlines_iff (s : Text) : toCrlf (toNewlines s) = s ↔ AllCrlf s := by
  constructor
  · intro h
    rw [← h]
    exact allCrlf_toCrlf _
  · intro h
    have hfirst : s.head? ≠ some newline := by
      intro hs
      obtain ⟨t, rfl⟩ := List.head?_eq_some_iff.1 hs
      exact absurd (h [] t rfl) (by simp)
    rw [toCrlf_toNewlines fun u v hsplit _ => h u v hsplit, if_neg hfirst]

/-- The lines of a text come back as they were exactly when its newlines agree. -/
theorem lines_restored_iff (s : Text) :
    (if hasCrlf s then toCrlf (toNewlines s) else toNewlines s) = s ↔ AllCrlf s ∨ NoCrlf s := by
  rw [noCrlf_iff]
  split
  · rename_i hlines
    rw [toCrlf_toNewlines_iff, hlines]
    simp
  · rename_i hlines
    rw [Bool.not_eq_true] at hlines
    exact ⟨fun _ => Or.inr hlines, fun _ => toNewlines_of_hasCrlf_eq_false hlines⟩

/-! ## Byte order marks in front -/

/-- The byte order mark that a content starts with, or nothing. -/
def leadingMark (b : Text) : Text := if startsWith byteOrderMark b then byteOrderMark else []

theorem leadingMark_append (b : Text) : leadingMark b ++ dropStart byteOrderMark b = b := by
  by_cases hb : startsWith byteOrderMark b = true
  · obtain ⟨t, rfl⟩ := startsWith_byteOrderMark_iff.1 hb
    rfl
  · rw [leadingMark, if_neg hb, dropStart, if_neg hb, List.nil_append]

/-- A byte order mark has no part in a line ending. -/
theorem hasCrlf_dropStart_byteOrderMark (b : Text) :
    hasCrlf (dropStart byteOrderMark b) = hasCrlf b := by
  by_cases hb : startsWith byteOrderMark b = true
  · obtain ⟨t, rfl⟩ := startsWith_byteOrderMark_iff.1 hb
    rfl
  · rw [dropStart, if_neg hb]

theorem has_hadCrlf_normalize (b : Text) : (normalize b).2.has .hadCrlf = hasCrlf b := by
  rw [normalize_eq, has_hadCrlf_formFlags, hasCrlf_dropStart_byteOrderMark]

theorem has_hadBom_normalize (b : Text) :
    (normalize b).2.has .hadBom = startsWith byteOrderMark b := by
  rw [normalize_eq, has_hadBom_formFlags]

/-! ## Files that carry the flags of a content -/

/-- The file has the flags that tell the form of a content.  Whether it was given as text does not
matter. -/
structure SourceFile.HasFormOf (f : SourceFile) (b : Text) : Prop where
  /-- The flag of a byte order mark. -/
  bom : f.flags.has .hadBom = (normalize b).2.has .hadBom
  /-- The flag of line endings. -/
  crlf : f.flags.has .hadCrlf = (normalize b).2.has .hadCrlf

/-- A file that is read from disk or given as text has the form of its content. -/
theorem FileSet.hasFormOf_addRaw (fs : FileSet) (path b : Text) {extra : FileFlags}
    (hextra : extra = 0 ∨ extra = .isVirtual) : (fs.addRaw path b extra).2.HasFormOf b := by
  have hbits : ∀ bom crlf : Bool, ∀ bit : FileFlags, bit = .hadBom ∨ bit = .hadCrlf →
      (formFlags bom crlf ||| extra).has bit = (formFlags bom crlf).has bit := by
    rcases hextra with rfl | rfl <;> rintro bom crlf bit (rfl | rfl) <;> revert bom crlf <;> decide
  exact ⟨hbits _ _ _ (Or.inl rfl), hbits _ _ _ (Or.inr rfl)⟩

/-- What comes back of a content: the mark in front, and the lines with the endings that the flag
tells. -/
theorem SourceFile.restore_normalize {f : SourceFile} {b : Text} (h : f.HasFormOf b) :
    f.restore (normalize b).1 = leadingMark b ++
      (if hasCrlf (dropStart byteOrderMark b) then toCrlf (toNewlines (dropStart byteOrderMark b))
        else toNewlines (dropStart byteOrderMark b)) := by
  rw [SourceFile.restore, GrammarLayout.restore, h.bom, h.crlf, has_hadBom_normalize,
    has_hadCrlf_normalize, hasCrlf_dropStart_byteOrderMark, normalize_eq, leadingMark]
  split <;> rfl

/-- A content comes back as it was exactly when, without its byte order mark, every newline stands
behind a carriage return or none does.  Its flags tell whether it has a line ending of two bytes
and whether it starts with a byte order mark. -/
theorem SourceFile.restore_normalize_iff {f : SourceFile} {b : Text} (h : f.HasFormOf b) :
    (f.restore (normalize b).1 = b ↔
      AllCrlf (dropStart byteOrderMark b) ∨ NoCrlf (dropStart byteOrderMark b)) ∧
    ((normalize b).2.has .hadCrlf = true ↔ [carriageReturn, newline] <:+: b) ∧
    ((normalize b).2.has .hadBom = true ↔ byteOrderMark <+: b) := by
  refine ⟨?_, ?_, ?_⟩
  · rw [← lines_restored_iff, SourceFile.restore_normalize h]
    constructor
    · intro hback
      exact List.append_cancel_left (hback.trans (leadingMark_append b).symm)
    · intro hlines
      rw [hlines, leadingMark_append]
  · rw [has_hadCrlf_normalize, hasCrlf_iff_infix]
  · rw [has_hadBom_normalize, startsWith, List.isPrefixOf_iff_prefix]

/-- Line endings of two bytes throughout, one of them behind a further carriage return, a carriage
return that stands alone, and two byte order marks. -/
theorem SourceFile.restore_normalize_iff_two_marks :
    (({} : FileSet).addVirtual (bytes "g.y") (bytes "\uFEFF\uFEFFa\r\r\nb\rc\r\n")).2.HasFormOf
      (bytes "\uFEFF\uFEFFa\r\r\nb\rc\r\n") ∧
    (({} : FileSet).addVirtual (bytes "g.y") (bytes "\uFEFF\uFEFFa\r\r\nb\rc\r\n")).2.restore
      (bytes "\uFEFFa\r\nb\rc\n") = bytes "\uFEFF\uFEFFa\r\r\nb\rc\r\n" ∧
    [carriageReturn, newline] <:+: bytes "\uFEFF\uFEFFa\r\r\nb\rc\r\n" := by
  have hform := FileSet.hasFormOf_addRaw {} (bytes "g.y") (bytes "\uFEFF\uFEFFa\r\r\nb\rc\r\n")
    (Or.inr rfl)
  obtain ⟨hback, hcrlf, -⟩ := SourceFile.restore_normalize_iff hform
  refine ⟨hform, ?_, hcrlf.1 (by decide)⟩
  exact hback.2 (Or.inl ((toCrlf_toNewlines_iff _).1 (by decide)))

/-- A file whose newlines do not agree gets a line ending of two bytes at each of them. -/
example : restore (normalize (bytes "a\r\nb\n")).2 (normalize (bytes "a\r\nb\n")).1
    = bytes "a\r\nb\r\n" := by decide

end GrammarLayout
