import GrammarLayout.Pass.Alignment
import GrammarLayout.Proofs.Pass.Code
import GrammarLayout.Proofs.Text.Ends

/-!
# Moving a group of lines twice

Lines that were moved to a new indentation have it as their least indentation,
so moving them there again changes nothing.  The two passes that move lines
treat lines of white space differently: one empties them, the other keeps them.
`moveLines` has this as a parameter.

What is proved here:

* `leastIndent_spec` — the least indentation is one that a line has;
* `moveLines_moveLines` — moving lines twice is moving them once;
* `rebase_rebase`, `alignContent_alignContent` — its two uses.
-/

namespace GrammarLayout

open Ascii Text

/-! ## The least indentation -/

theorem mem_inkedLines {ls : List Text} {l : Text} :
    l ∈ inkedLines ls ↔ l ∈ ls ∧ isSpaces l = false := by
  simp [inkedLines]

/-- The least indentation of lines that are not all blank is that of one of them. -/
theorem leastIndent_spec {ls : List Text} (h : ∃ l ∈ ls, isSpaces l = false) :
    (∃ l ∈ ls, isSpaces l = false ∧ (leadingBlanks l).length = leastIndent ls) ∧
      ∀ l ∈ ls, isSpaces l = false → leastIndent ls ≤ (leadingBlanks l).length := by
  obtain ⟨l, hl, hink⟩ := h
  have hne : ((inkedLines ls).map fun l => (leadingBlanks l).length) ≠ [] := by
    rw [Ne, List.map_eq_nil_iff]
    exact List.ne_nil_of_mem (mem_inkedLines.2 ⟨hl, hink⟩)
  obtain ⟨n, hn⟩ := Option.isSome_iff_exists.1 (List.isSome_min?_of_ne_nil hne)
  obtain ⟨hmem, hle⟩ := List.min?_eq_some_iff.1 hn
  have hleast : leastIndent ls = n := by rw [leastIndent, hn, Option.getD_some]
  rw [hleast]
  constructor
  · obtain ⟨m, hm, rfl⟩ := List.mem_map.1 hmem
    obtain ⟨hm, hvisible⟩ := mem_inkedLines.1 hm
    exact ⟨m, hm, hvisible, rfl⟩
  · intro m hm hvisible
    exact hle _ (List.mem_map.2 ⟨m, mem_inkedLines.2 ⟨hm, hvisible⟩, rfl⟩)

theorem leastIndent_eq {ls : List Text} {n : Nat}
    (hmem : ∃ l ∈ ls, isSpaces l = false ∧ (leadingBlanks l).length = n)
    (hle : ∀ l ∈ ls, isSpaces l = false → n ≤ (leadingBlanks l).length) : leastIndent ls = n := by
  obtain ⟨l, hl, hink, hlen⟩ := hmem
  obtain ⟨⟨m, hm, hvisible, hleast⟩, hbound⟩ := leastIndent_spec ⟨l, hl, hink⟩
  have h₁ := hle m hm hvisible
  have h₂ := hbound l hl hink
  omega

/-! ## One line -/

/-- The code of a line, without the blanks on both sides. -/
def lineCore (l : Text) : Text := trimBlanksEnd (trimBlanksStart l)

theorem rebaseLine_of_ink {l : Text} (hl : isSpaces l = false) (base : Text) (cut : Nat) :
    rebaseLine base cut l = base ++ (leadingBlanks l).drop cut ++ lineCore l := by
  rw [rebaseLine, hl]
  rfl

/-- A line with code starts and ends it with a byte that is not a blank. -/
theorem lineCore_of_ink {l : Text} (hl : isSpaces l = false) :
    lineCore l ≠ [] ∧ ∀ c ∈ (lineCore l).head?, isBlank c = false := by
  obtain ⟨c, t, hstart⟩ : ∃ c t, trimBlanksStart l = c :: t := by
    refine List.exists_cons_of_ne_nil fun hnil => ?_
    have hblanks : ∀ c ∈ l, isBlank c = true := List.dropWhile_eq_nil_iff.1 hnil
    rw [isSpaces_of_blanks hblanks] at hl
    exact absurd hl (by decide)
  have hc : isBlank c = false := head?_trimBlanksStart l c (by rw [hstart]; rfl)
  have hcode : lineCore l = c :: trimBlanksEnd t := by
    rw [lineCore, hstart]
    exact trimEndWhile_append_cons hc [] t
  rw [hcode]
  refine ⟨by simp, fun b hb => ?_⟩
  rwa [← Option.some.inj hb]

/-- A line with code is its indentation and the code. -/
theorem trimBlanksEnd_eq_of_ink {l : Text} (hl : isSpaces l = false) :
    trimBlanksEnd l = leadingBlanks l ++ lineCore l := by
  have hsplit : leadingBlanks l ++ trimBlanksStart l = l := List.takeWhile_append_dropWhile
  have hcore := trimEndWhile_append_of_ne_nil (lineCore_of_ink hl).1 (leadingBlanks l)
  rwa [hsplit] at hcore

/-- The code of a trimmed line ends where the line ends. -/
theorem trimLayout_lineCore {l : Text} (h : trimEndWhile isLayout l = l) :
    trimEndWhile isLayout (lineCore l) = lineCore l := by
  have hsplit : leadingBlanks l ++ trimBlanksStart l = l := List.takeWhile_append_dropWhile
  have hstart : trimEndWhile isLayout (trimBlanksStart l) = trimBlanksStart l := by
    by_cases hnil : trimEndWhile isLayout (trimBlanksStart l) = []
    · have hall : trimEndWhile isLayout l = [] := by
        rw [← hsplit, trimEndWhile_append_of_forall (trimEndWhile_eq_nil_iff.1 hnil)]
        refine trimEndWhile_eq_nil_iff.2 fun c hc => ?_
        simp [isLayout, show isBlank c = true from List.mem_takeWhile_imp hc]
      rw [← h, hall]
      rfl
    · rw [← hsplit, trimEndWhile_append_of_ne_nil hnil] at h
      exact List.append_cancel_left h
  have hblank : ∀ c, isBlank c = true → isLayout c = true := fun c hc => by simp [isLayout, hc]
  rw [lineCore, show trimBlanksEnd (trimBlanksStart l) = trimBlanksStart l from
    trimEndWhile_eq_self_of_imp hblank hstart, hstart]

section Moved

variable {base : Text} (hbase : ∀ c ∈ base, isBlank c = true) (cut : Nat) {l : Text}
  (hl : isSpaces l = false)
include hbase hl

theorem isSpaces_rebaseLine : isSpaces (rebaseLine base cut l) = false := by
  rw [Bool.eq_false_iff, Ne, ← ink_eq_nil_iff] at hl ⊢
  rwa [ink_rebaseLine (isSpaces_of_blanks hbase)]

theorem parts_rebaseLine :
    leadingBlanks (rebaseLine base cut l) = base ++ (leadingBlanks l).drop cut ∧
      lineCore (rebaseLine base cut l) = lineCore l := by
  have hindent : ∀ c ∈ base ++ (leadingBlanks l).drop cut, isBlank c = true := by
    intro c hc
    rcases List.mem_append.1 hc with hc | hc
    · exact hbase c hc
    · exact List.mem_takeWhile_imp (List.mem_of_mem_drop hc)
  have hstart := (lineCore_of_ink hl).2
  rw [rebaseLine_of_ink hl]
  refine ⟨leadingBlanks_append hindent hstart, ?_⟩
  rw [lineCore, trimBlanksStart_append hindent hstart, lineCore, trimBlanksEnd_trimBlanksEnd]

/-- A line that was moved stays where it is when the new indentation is cut off again. -/
theorem rebaseLine_rebaseLine :
    rebaseLine base base.length (rebaseLine base cut l) = rebaseLine base cut l := by
  obtain ⟨hlead, hcode⟩ := parts_rebaseLine hbase cut hl
  rw [rebaseLine_of_ink (isSpaces_rebaseLine hbase cut hl), hlead, hcode, List.drop_left,
    rebaseLine_of_ink hl]

end Moved

/-! ## A group of lines -/

/-- A line with `cut` bytes of its indentation replaced by `base`, or with `blank` applied to it when
it is white space. -/
def moveLine (blank : Text → Text) (base : Text) (cut : Nat) (l : Text) : Text :=
  if isSpaces l then blank l else rebaseLine base cut l

theorem moveLine_of_isSpaces {l : Text} (hl : isSpaces l = true) (blank : Text → Text) (base : Text)
    (cut : Nat) : moveLine blank base cut l = blank l := if_pos hl

theorem moveLine_of_ink {l : Text} (hl : isSpaces l = false) (blank : Text → Text) (base : Text)
    (cut : Nat) : moveLine blank base cut l = rebaseLine base cut l := if_neg (by simp [hl])

/-- Where white space is kept, moving a line changes its indentation only. -/
theorem ink_moveLine {base : Text} (hbase : ∀ c ∈ base, isBlank c = true) (cut : Nat) (l : Text) :
    ink (moveLine id base cut l) = ink l := by
  cases hl : isSpaces l with
  | true => rw [moveLine_of_isSpaces hl, id]
  | false => rw [moveLine_of_ink hl, ink_rebaseLine (isSpaces_of_blanks hbase)]

theorem isSpaces_moveLine {base : Text} (hbase : ∀ c ∈ base, isBlank c = true) (cut : Nat)
    (l : Text) : isSpaces (moveLine id base cut l) = isSpaces l := by
  rw [Bool.eq_iff_iff, ← ink_eq_nil_iff, ← ink_eq_nil_iff, ink_moveLine hbase]

/-- The lines moved so that the least indented one is indented by `base`. -/
def moveLines (blank : Text → Text) (base : Text) (ls : List Text) : List Text :=
  ls.map (moveLine blank base (leastIndent ls))

/-- Lines that were moved have the new indentation as their least one. -/
theorem leastIndent_moveLines {blank : Text → Text}
    (hblank : ∀ l, isSpaces l = true → isSpaces (blank l) = true) {base : Text}
    (hbase : ∀ c ∈ base, isBlank c = true) {ls : List Text} (h : ∃ l ∈ ls, isSpaces l = false) :
    leastIndent (moveLines blank base ls) = base.length := by
  obtain ⟨⟨m, hm, hink, hleast⟩, -⟩ := leastIndent_spec h
  apply leastIndent_eq
  · refine ⟨rebaseLine base (leastIndent ls) m,
      List.mem_map.2 ⟨m, hm, moveLine_of_ink hink blank base _⟩, isSpaces_rebaseLine hbase _ hink, ?_⟩
    rw [(parts_rebaseLine hbase _ hink).1, ← hleast, List.drop_length, List.append_nil]
  · intro l hl hvisible
    obtain ⟨k, -, rfl⟩ := List.mem_map.1 hl
    cases hk : isSpaces k with
    | true =>
      rw [moveLine_of_isSpaces hk, hblank k hk] at hvisible
      exact absurd hvisible (by decide)
    | false =>
      rw [moveLine_of_ink hk, (parts_rebaseLine hbase _ hk).1, List.length_append]
      omega

/-- Moving lines twice is moving them once. -/
theorem moveLines_moveLines {blank : Text → Text}
    (hblank : ∀ l, isSpaces l = true → isSpaces (blank l) = true ∧ blank (blank l) = blank l)
    {base : Text} (hbase : ∀ c ∈ base, isBlank c = true) (ls : List Text) :
    moveLines blank base (moveLines blank base ls) = moveLines blank base ls := by
  have hline : ∀ l ∈ ls, moveLine blank base (leastIndent (moveLines blank base ls))
      (moveLine blank base (leastIndent ls) l) = moveLine blank base (leastIndent ls) l := by
    intro l hl
    cases hink : isSpaces l with
    | true =>
      obtain ⟨hspaces, hsame⟩ := hblank l hink
      rw [moveLine_of_isSpaces hink, moveLine_of_isSpaces hspaces, hsame]
    | false =>
      rw [moveLine_of_ink hink, moveLine_of_ink (isSpaces_rebaseLine hbase _ hink),
        leastIndent_moveLines (fun l hl => (hblank l hl).1) hbase ⟨l, hl, hink⟩]
      exact rebaseLine_rebaseLine hbase _ hink
  rw [moveLines, moveLines, List.map_map]
  exact List.map_congr_left hline

theorem rebase_eq (base : Text) (ls : List Text) : rebase base ls = moveLines (fun _ => []) base ls := by
  refine List.map_congr_left fun l _ => ?_
  cases hl : isSpaces l with
  | true => rw [rebaseLine, if_pos hl, moveLine_of_isSpaces hl]
  | false => rw [moveLine_of_ink hl]

theorem rebase_rebase {base : Text} (hbase : ∀ c ∈ base, isBlank c = true) (ls : List Text) :
    rebase base (rebase base ls) = rebase base ls := by
  rw [rebase_eq, rebase_eq]
  apply moveLines_moveLines _ hbase
  exact fun _ _ => ⟨rfl, rfl⟩

theorem alignContent_eq (base step : Text) (ls : List Text) :
    alignContent base step ls = moveLines id (base ++ step) ls := rfl

theorem alignContent_alignContent {base step : Text} (hbase : ∀ c ∈ base, isBlank c = true)
    (hstep : ∀ c ∈ step, isBlank c = true) (ls : List Text) :
    alignContent base step (alignContent base step ls) = alignContent base step ls := by
  have hboth : ∀ c ∈ base ++ step, isBlank c = true := by
    intro c hc
    rcases List.mem_append.1 hc with hc | hc
    exacts [hbase c hc, hstep c hc]
  rw [alignContent_eq, alignContent_eq]
  exact moveLines_moveLines (fun _ hl => ⟨hl, rfl⟩) hboth ls

end GrammarLayout
