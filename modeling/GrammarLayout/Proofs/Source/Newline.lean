import GrammarLayout.Source.Newline

/-!
# Taking a file's form away and putting it back

`normalize` takes the byte order mark and the carriage returns of line ends away
and `restore` puts them back.  A text that is restored is read again as the
same text in the same form, unless it brings a line ending or a byte order mark
of its own that the form does not have.

What is proved here:

* `toNewlines_toCrlf`, `hasCrlf_toCrlf` — line endings put in are found and taken
  away again;
* `formFlags`, `normalize_eq` — the flags of a content are those of its form;
* `normalize_restore_iff`, `normalize_restore_content` — when a restored text is
  read again as it was.
-/

namespace GrammarLayout

open Ascii Text

/-! ## Line endings -/

theorem toNewlines_cons_of_ne {c : UInt8} (hc : c ≠ carriageReturn) (s : Text) :
    toNewlines (c :: s) = c :: toNewlines s := by
  rw [toNewlines, if_neg (by simp [hc])]

theorem toCrlf_newline (s : Text) :
    toCrlf (newline :: s) = carriageReturn :: newline :: toCrlf s := rfl

theorem toCrlf_cons_of_ne {c : UInt8} (hc : c ≠ newline) (s : Text) :
    toCrlf (c :: s) = c :: toCrlf s := by
  rw [toCrlf, List.flatMap_cons, if_neg hc]
  rfl

/-- No newline stands at the start of a text with line endings put in. -/
theorem head?_toCrlf (s : Text) : (toCrlf s).head? ≠ some newline := by
  cases s with
  | nil => decide
  | cons c s =>
    by_cases hc : c = newline
    · rw [hc, toCrlf_newline]
      exact fun h => absurd (Option.some.inj h) (by decide)
    · rw [toCrlf_cons_of_ne hc]
      simpa using hc

/-- Line endings that were put in are taken away again, whatever carriage returns the text has. -/
theorem toNewlines_toCrlf (s : Text) : toNewlines (toCrlf s) = s := by
  induction s with
  | nil => rfl
  | cons c s ih =>
    by_cases hc : c = newline
    · rw [hc, toCrlf_newline, toNewlines, if_pos (by simp), toNewlines_cons_of_ne (by decide), ih]
    · rw [toCrlf_cons_of_ne hc, toNewlines, if_neg (by simp [head?_toCrlf]), ih]

theorem hasCrlf_toCrlf (s : Text) : hasCrlf (toCrlf s) = true ↔ newline ∈ s := by
  induction s with
  | nil => decide
  | cons c s ih =>
    by_cases hc : c = newline
    · rw [hc, toCrlf_newline]
      simp [hasCrlf]
    · rw [toCrlf_cons_of_ne hc, hasCrlf]
      simp [head?_toCrlf, ih, Ne.symm hc]

theorem toNewlines_of_hasCrlf_eq_false {s : Text} (h : hasCrlf s = false) : toNewlines s = s := by
  induction s with
  | nil => rfl
  | cons c s ih =>
    rw [hasCrlf, Bool.or_eq_false_iff] at h
    rw [toNewlines, h.1, if_neg (by decide), ih h.2]

/-- Only carriage returns are taken away. -/
theorem mem_toNewlines {c : UInt8} (hc : c ≠ carriageReturn) (s : Text) :
    c ∈ toNewlines s ↔ c ∈ s := by
  induction s with
  | nil => rfl
  | cons b s ih =>
    rw [toNewlines]
    split
    · rename_i hb
      have hb : b = carriageReturn := by simp at hb; exact hb.1
      simp [hb, hc, ih]
    · simp [ih]

theorem newline_mem_of_hasCrlf {s : Text} (h : hasCrlf s = true) : newline ∈ s := by
  induction s with
  | nil => simp [hasCrlf] at h
  | cons c s ih =>
    rw [hasCrlf, Bool.or_eq_true, Bool.and_eq_true, beq_iff_eq, beq_iff_eq] at h
    rcases h with ⟨-, hhead⟩ | h
    · exact List.mem_cons_of_mem c (List.mem_of_mem_head? hhead)
    · exact List.mem_cons_of_mem c (ih h)

theorem carriageReturn_mem_of_hasCrlf {s : Text} (h : hasCrlf s = true) : carriageReturn ∈ s := by
  induction s with
  | nil => simp [hasCrlf] at h
  | cons c s ih =>
    rw [hasCrlf, Bool.or_eq_true, Bool.and_eq_true, beq_iff_eq] at h
    rcases h with ⟨rfl, -⟩ | h
    · exact List.mem_cons_self
    · exact List.mem_cons_of_mem c (ih h)

/-! ## Byte order marks -/

/-- A byte that starts a text without line endings, and is no newline, starts the text they were
taken from. -/
theorem exists_of_toNewlines_eq_cons {b : UInt8} (hb : b ≠ newline) {s t : Text}
    (h : toNewlines s = b :: t) : ∃ u, s = b :: u ∧ toNewlines u = t := by
  cases s with
  | nil => simp [toNewlines] at h
  | cons c s =>
    rw [toNewlines] at h
    split at h
    · rename_i hc
      -- What follows the carriage return that is taken away starts with a newline.
      obtain ⟨rest, rfl⟩ : ∃ rest, s = newline :: rest := by
        rw [Bool.and_eq_true, beq_iff_eq, beq_iff_eq] at hc
        obtain ⟨rest, hrest⟩ := List.head?_eq_some_iff.1 hc.2
        exact ⟨rest, hrest⟩
      rw [toNewlines_cons_of_ne (by decide), List.cons.injEq] at h
      exact absurd h.1.symm hb
    · rw [List.cons.injEq] at h
      exact ⟨s, by rw [h.1], h.2⟩

theorem startsWith_byteOrderMark_iff {s : Text} :
    startsWith byteOrderMark s = true ↔ ∃ t, s = 0xEF :: 0xBB :: 0xBF :: t := by
  rw [startsWith, List.isPrefixOf_iff_prefix]
  constructor
  · rintro ⟨t, rfl⟩
    exact ⟨t, rfl⟩
  · rintro ⟨t, rfl⟩
    exact ⟨t, rfl⟩

theorem startsWith_byteOrderMark_of_toNewlines {s : Text}
    (h : startsWith byteOrderMark (toNewlines s) = true) : startsWith byteOrderMark s = true := by
  obtain ⟨t, ht⟩ := startsWith_byteOrderMark_iff.1 h
  obtain ⟨u, rfl, hu⟩ := exists_of_toNewlines_eq_cons (by decide) ht
  obtain ⟨v, rfl, hv⟩ := exists_of_toNewlines_eq_cons (by decide) hu
  obtain ⟨w, rfl, -⟩ := exists_of_toNewlines_eq_cons (by decide) hv
  exact startsWith_byteOrderMark_iff.2 ⟨w, rfl⟩

theorem startsWith_byteOrderMark_toCrlf {s : Text} (h : startsWith byteOrderMark s = false) :
    startsWith byteOrderMark (toCrlf s) = false := by
  rw [← Bool.not_eq_true] at h ⊢
  intro hcrlf
  obtain ⟨t, ht⟩ := startsWith_byteOrderMark_iff.1 hcrlf
  refine h (startsWith_byteOrderMark_iff.2 ⟨toNewlines t, ?_⟩)
  rw [← toNewlines_toCrlf s, ht, toNewlines_cons_of_ne (by decide),
    toNewlines_cons_of_ne (by decide), toNewlines_cons_of_ne (by decide)]

theorem dropStart_byteOrderMark_append (s : Text) :
    dropStart byteOrderMark (byteOrderMark ++ s) = s ∧
      startsWith byteOrderMark (byteOrderMark ++ s) = true := by
  have hstart : startsWith byteOrderMark (byteOrderMark ++ s) = true :=
    startsWith_byteOrderMark_iff.2 ⟨s, rfl⟩
  exact ⟨by rw [dropStart, if_pos hstart]; rfl, hstart⟩

theorem dropStart_byteOrderMark_of_not {s : Text} (h : startsWith byteOrderMark s = false) :
    dropStart byteOrderMark s = s := by
  rw [dropStart, if_neg (by simp [h])]

/-! ## The form of a content -/

/-- The flags of a content with or without a byte order mark and line endings. -/
def formFlags (bom crlf : Bool) : FileFlags :=
  (if bom then .hadBom else 0) ||| (if crlf then .hadCrlf else 0)

theorem normalize_eq (content : Text) :
    normalize content = (toNewlines (dropStart byteOrderMark content),
      formFlags (startsWith byteOrderMark content)
        (hasCrlf (dropStart byteOrderMark content))) := rfl

theorem formFlags_inj {bom crlf bom' crlf' : Bool}
    (h : formFlags bom crlf = formFlags bom' crlf') : bom = bom' ∧ crlf = crlf' := by
  revert bom crlf bom' crlf'
  decide

theorem has_hadBom_formFlags (bom crlf : Bool) : (formFlags bom crlf).has .hadBom = bom := by
  revert bom crlf
  decide

theorem has_hadCrlf_formFlags (bom crlf : Bool) : (formFlags bom crlf).has .hadCrlf = crlf := by
  revert bom crlf
  decide

/-- Whether a file was given as text says nothing about its form. -/
theorem restore_isVirtual (bom crlf : Bool) (s : Text) :
    restore (formFlags bom crlf ||| .isVirtual) s = restore (formFlags bom crlf) s := by
  have hbits : ∀ bom crlf : Bool,
      (formFlags bom crlf ||| .isVirtual).has .hadBom = (formFlags bom crlf).has .hadBom ∧
      (formFlags bom crlf ||| .isVirtual).has .hadCrlf = (formFlags bom crlf).has .hadCrlf := by
    decide
  rw [restore, restore, (hbits bom crlf).1, (hbits bom crlf).2]

/-- A restored text is read as its lines stand. -/
theorem normalize_restore {bom crlf : Bool} {s : Text}
    (hbom : bom = true ∨ startsWith byteOrderMark s = false) :
    normalize (restore (formFlags bom crlf) s)
      = (toNewlines (if crlf then toCrlf s else s),
          formFlags bom (hasCrlf (if crlf then toCrlf s else s))) := by
  rw [restore, has_hadBom_formFlags, has_hadCrlf_formFlags, normalize_eq]
  cases bom with
  | true =>
    obtain ⟨hdrop, hstart⟩ := dropStart_byteOrderMark_append (if crlf then toCrlf s else s)
    simp only [if_true, hdrop, hstart]
  | false =>
    have hlines : startsWith byteOrderMark (if crlf then toCrlf s else s) = false := by
      have hs : startsWith byteOrderMark s = false := by simpa using hbom
      split
      · exact startsWith_byteOrderMark_toCrlf hs
      · exact hs
    simp only [Bool.false_eq_true, if_false, dropStart_byteOrderMark_of_not hlines, hlines]

/-- A text that starts with no byte order mark of its own is read again in the form that it was put
into exactly when its lines end as the form says: some line ends when line endings are put in, and
no line ends in a carriage return otherwise. -/
theorem normalize_restore_iff {bom crlf : Bool} {s : Text}
    (hbom : bom = true ∨ startsWith byteOrderMark s = false) :
    normalize (restore (formFlags bom crlf) s) = (s, formFlags bom crlf) ↔
      if crlf then newline ∈ s else hasCrlf s = false := by
  rw [normalize_restore hbom, Prod.mk.injEq]
  cases crlf with
  | true =>
    simp only [if_true, toNewlines_toCrlf, true_and]
    rw [← hasCrlf_toCrlf]
    exact ⟨fun h => (formFlags_inj h).2, fun h => by rw [h]⟩
  | false =>
    simp only [Bool.false_eq_true, if_false]
    exact ⟨fun h => (formFlags_inj h.2).2,
      fun h => ⟨toNewlines_of_hasCrlf_eq_false h, by rw [h]⟩⟩

/-- A text that brings no byte order mark in and keeps a newline of the content is read again in
the form of the content exactly when line endings are put into it or it ends no line in a carriage
return. -/
theorem normalize_restore_content {content text : Text}
    (hbom : startsWith byteOrderMark text = true →
      startsWith byteOrderMark (normalize content).1 = true)
    (hnewline : newline ∈ (normalize content).1 → newline ∈ text) :
    normalize (restore (normalize content).2 text) = (text, (normalize content).2) ↔
      (normalize content).2.has .hadCrlf = true ∨ hasCrlf text = false := by
  simp only [normalize_eq content] at hbom hnewline ⊢
  have hmark : startsWith byteOrderMark content = true ∨ startsWith byteOrderMark text = false := by
    by_cases hcontent : startsWith byteOrderMark content = true
    · exact Or.inl hcontent
    · right
      rw [Bool.not_eq_true] at hcontent
      rw [dropStart_byteOrderMark_of_not hcontent] at hbom
      rw [← Bool.not_eq_true] at hcontent ⊢
      exact fun htext => hcontent (startsWith_byteOrderMark_of_toNewlines (hbom htext))
  rw [normalize_restore_iff hmark, has_hadCrlf_formFlags]
  split
  · rename_i hcrlf
    have hlines := hnewline ((mem_toNewlines (by decide) _).2 (newline_mem_of_hasCrlf hcrlf))
    exact ⟨fun _ => Or.inl hcrlf, fun _ => hlines⟩
  · rename_i hcrlf
    exact ⟨Or.inr, fun h => h.resolve_left hcrlf⟩

end GrammarLayout
