import GrammarLayout.Proofs.Grammar.Kept
import GrammarLayout.Proofs.Text.Split

/-!
# Texts without their comments

A comment runs from a hash mark to the end of its line.  The code of a text is
what is left without comments, white space and semicolons.  It is put together
from the code of the lines, and the code of a line depends on its ink alone.

What is proved here:

* `code_append_newline` — the code of a text comes line by line;
* `code_of_isLine` — the code of one line;
* `uncommented_append` — text behind a hash mark is lost.
-/

namespace GrammarLayout

open Ascii

namespace Text

/-- A text without the part of each line from its first hash mark on. -/
def withoutComments (s : Text) : Text :=
  joinLines ((splitLines s).map fun l => l.takeWhile (· != hash))

/-- A text without comments, white space and semicolons. -/
def code (s : Text) : Text := withoutSemicolons (ink (withoutComments s))

/-- What is left of the ink of a line without its comment and its semicolons. -/
def uncommented (x : Text) : Text := withoutSemicolons (x.takeWhile (· != hash))

/-- The code of one line. -/
def lineCode (l : Text) : Text := uncommented (ink l)

/-! ## The ink of a line -/

theorem bne_hash_of_notMem {x : Text} (h : hash ∉ x) : ∀ c ∈ x, (c != hash) = true := by
  intro c hc
  rw [bne_iff_ne]
  rintro rfl
  exact h hc

theorem uncommented_of_notMem {x : Text} (h : hash ∉ x) : uncommented x = withoutSemicolons x := by
  rw [uncommented, List.takeWhile_eq_self_iff.2 (bne_hash_of_notMem h)]

/-- What follows a text is its code when no hash mark stands in the text, and lost otherwise. -/
theorem uncommented_append (x y : Text) :
    uncommented (x ++ y) = uncommented x ++ if hash ∈ x then [] else uncommented y := by
  by_cases h : hash ∈ x
  · obtain ⟨a, b, rfl, ha⟩ := List.eq_append_cons_of_mem h
    have hcut : ∀ t, (a ++ hash :: t).takeWhile (· != hash) = a := by
      intro t
      rw [List.takeWhile_append_of_pos (bne_hash_of_notMem ha)]
      simp
    rw [if_pos h, List.append_nil, uncommented, uncommented, List.append_assoc, List.cons_append,
      hcut, hcut]
  · rw [if_neg h, uncommented_of_notMem h, uncommented,
      List.takeWhile_append_of_pos (bne_hash_of_notMem h), withoutSemicolons_append]
    rfl

@[simp] theorem uncommented_nil : uncommented [] = [] := rfl

@[simp] theorem uncommented_hash (x : Text) : uncommented (hash :: x) = [] := rfl

@[simp] theorem uncommented_semicolon (x : Text) :
    uncommented (semicolon :: x) = uncommented x := rfl

@[simp] theorem uncommented_concat_semicolon (x : Text) :
    uncommented (x ++ [semicolon]) = uncommented x := by
  rw [uncommented_append]
  simp

theorem uncommented_cons {c : UInt8} (hhash : c ≠ hash) (hsemi : c ≠ semicolon) (x : Text) :
    uncommented (c :: x) = c :: uncommented x := by
  rw [uncommented, List.takeWhile_cons_of_pos (by simpa using hhash), withoutSemicolons_cons hsemi]
  rfl

theorem hash_mem_ink_iff {s : Text} : hash ∈ ink s ↔ hash ∈ s :=
  ⟨mem_of_mem_ink, mem_ink (by decide) (by decide)⟩

/-- Deleting a comment and deleting white space commute. -/
theorem ink_takeWhile_hash (l : Text) :
    ink (l.takeWhile (· != hash)) = (ink l).takeWhile (· != hash) := by
  by_cases h : hash ∈ l
  · obtain ⟨a, b, rfl, ha⟩ := List.eq_append_cons_of_mem h
    have hink : hash ∉ ink a := fun hmem => ha (mem_of_mem_ink hmem)
    rw [ink_append_ascii_cons (by decide), ink_visible_cons (by decide) (by decide),
      List.takeWhile_append_of_pos (bne_hash_of_notMem ha),
      List.takeWhile_append_of_pos (bne_hash_of_notMem hink)]
    simp
  · have hink : hash ∉ ink l := fun hmem => h (mem_of_mem_ink hmem)
    rw [List.takeWhile_eq_self_iff.2 (bne_hash_of_notMem h),
      List.takeWhile_eq_self_iff.2 (bne_hash_of_notMem hink)]

/-! ## Lines -/

theorem withoutSemicolons_flatMap {α : Type} (f : α → Text) (l : List α) :
    withoutSemicolons (l.flatMap f) = l.flatMap fun a => withoutSemicolons (f a) :=
  List.filter_flatMap

theorem code_eq_flatMap (s : Text) : code s = (splitLines s).flatMap lineCode := by
  rw [code, withoutComments, ink_joinLines, List.flatMap_map, withoutSemicolons_flatMap]
  simp only [ink_takeWhile_hash]
  rfl

/-- The code of a text comes line by line. -/
theorem code_append_newline (a b : Text) : code (a ++ newline :: b) = code a ++ code b := by
  rw [code_eq_flatMap, splitLines_append_newline, List.flatMap_append, ← code_eq_flatMap,
    ← code_eq_flatMap]

@[simp] theorem code_nil : code [] = [] := rfl

theorem code_of_notMem {a : Text} (h : newline ∉ a) : code a = lineCode a := by
  rw [code_eq_flatMap, splitLines_of_notMem h, List.flatMap_cons, List.flatMap_nil, List.append_nil]

theorem code_ended_append {l : Text} (hl : Ended l) (s : Text) :
    code (l ++ s) = code l ++ code s := by
  obtain ⟨a, rfl⟩ := hl
  rw [List.append_assoc, List.singleton_append, code_append_newline, code_append_newline, code_nil,
    List.append_nil]

theorem code_flatten {ls : List Text} (h : EndedLines ls) : code ls.flatten = ls.flatMap code := by
  induction h with
  | nil => rfl
  | last l => simp
  | cons hl _ ih => rw [List.flatten_cons, code_ended_append hl, ih, List.flatMap_cons]

/-- A text with no newline but perhaps one at its end. -/
def IsLine (l : Text) : Prop := ∃ a, newline ∉ a ∧ (l = a ∨ l = a ++ [newline])

theorem isLine_concat {a : Text} (h : newline ∉ a) : IsLine (a ++ [newline]) := ⟨a, h, Or.inr rfl⟩

theorem IsLine.notMem_trimTerminator {l : Text} (h : IsLine l) : newline ∉ trimTerminator l := by
  obtain ⟨a, ha, rfl | rfl⟩ := h
  · exact fun hmem => ha (mem_of_mem_trimEndWhile hmem)
  · rw [trimTerminator_concat_newline]
    exact fun hmem => ha (mem_of_mem_trimEndWhile hmem)

theorem code_of_isLine {l : Text} (h : IsLine l) : code l = lineCode l := by
  obtain ⟨a, ha, rfl | rfl⟩ := h
  · exact code_of_notMem ha
  · rw [code_append_newline, code_nil, List.append_nil, code_of_notMem ha, lineCode, lineCode,
      ink_append_newline, ink_nil, List.append_nil]

theorem lineCode_of_ink {s t : Text} (h : ink s = ink t) : lineCode s = lineCode t := by
  rw [lineCode, lineCode, h]

@[simp] theorem lineCode_nil : lineCode [] = [] := rfl

theorem lineCode_of_isSpaces {s : Text} (h : isSpaces s = true) : lineCode s = [] := by
  rw [lineCode, ink_of_isSpaces h, uncommented_nil]

/-- A comment has no code. -/
theorem lineCode_of_hash {s : Text} (h : startsWith [hash] (trim s) = true) : lineCode s = [] := by
  obtain ⟨t, ht⟩ := List.head?_eq_some_iff.1 (startsWith_trim_iff.1 h)
  rw [lineCode, ht, uncommented_hash]

end Text

end GrammarLayout
