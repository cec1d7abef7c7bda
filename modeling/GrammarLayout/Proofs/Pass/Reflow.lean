import GrammarLayout.Proofs.Pass.Indent
import GrammarLayout.Proofs.Pass.Moved
import GrammarLayout.Proofs.Text.Split
import Mathlib.Data.List.Forall2

/-!
# The lines of a block

A block is written with its braces on lines of their own.  The text behind the
opening brace becomes the first line of its code, blank lines in front of the code
and the line of the closing brace are dropped, and what is left is moved as a group.

What is proved here:

* `trim_rebaseLine`, `inkedLines_rebase` — moving lines keeps what stands on them;
* `gaps_dropWhile`, `gapsFrom_append` — blank lines at the ends of the code do not
  count;
* `exists_inkedLines_blockContent`, `gaps_blockContent` — the code of a block has the
  lines of the block, and as many blank lines between them;
* `reflowBlock_keeps` — what is kept when a block is written anew.
-/

namespace GrammarLayout

open Ascii Text

/-! ## Lines that are moved -/

section Rebase

variable {base : Text} (hbase : ∀ c ∈ base, isBlank c = true) (cut : Nat) (l : Text)
include hbase

/-- Moving a line changes its ends only. -/
theorem trim_rebaseLine : trim (rebaseLine base cut l) = trim l := by
  cases hl : isSpaces l with
  | true =>
    rw [rebaseLine, if_pos hl, trim_eq_nil_iff.2 hl]
    rfl
  | false =>
    have hindent : ∀ c ∈ base ++ (leadingBlanks l).drop cut, isBlank c = true :=
      List.forall_mem_append.2 ⟨hbase, fun c hc => List.mem_takeWhile_imp (List.mem_of_mem_drop hc)⟩
    have hstart : trim (trimBlanksStart l) = trim l := by
      conv_rhs => rw [← List.takeWhile_append_dropWhile (p := isBlank) (l := l),
        trim_blanks_append fun c hc => List.mem_takeWhile_imp hc]
      rfl
    rw [rebaseLine_of_ink hl, trim_blanks_append hindent, lineCore, trim_trimBlanksEnd, hstart]

theorem isSpaces_rebaseLine_eq : isSpaces (rebaseLine base cut l) = isSpaces l := by
  rw [← isEmpty_trim, trim_rebaseLine hbase, isEmpty_trim]

theorem inkedLines_rebase (ls : List Text) :
    inkedLines (rebase base ls) = (inkedLines ls).map (rebaseLine base (leastIndent ls)) := by
  rw [inkedLines, rebase, List.filter_map, inkedLines]
  congr 1
  refine List.filter_congr fun l _ => ?_
  rw [Function.comp_apply, isSpaces_rebaseLine_eq hbase]

theorem map_trim_inkedLines_rebase (ls : List Text) :
    (inkedLines (rebase base ls)).map trim = (inkedLines ls).map trim := by
  rw [inkedLines_rebase hbase, List.map_map]
  exact List.map_congr_left fun l _ => trim_rebaseLine hbase _ l

/-- Lines of code are moved to the new indentation or further, and one of them exactly there. -/
theorem leadingBlanks_rebase (ls : List Text) :
    (∀ m ∈ inkedLines (rebase base ls), base <+: leadingBlanks m) ∧
      (inkedLines (rebase base ls) ≠ [] →
        ∃ m ∈ inkedLines (rebase base ls), leadingBlanks m = base) := by
  rw [inkedLines_rebase hbase]
  constructor
  · intro m hm
    obtain ⟨l, hl, rfl⟩ := List.mem_map.1 hm
    rw [(parts_rebaseLine hbase _ (mem_inkedLines.1 hl).2).1]
    exact List.prefix_append base _
  · intro hne
    obtain ⟨l, hl⟩ := List.exists_mem_of_ne_nil _ fun hnil => hne (congrArg _ hnil)
    obtain ⟨⟨k, hk, hink, hleast⟩, -⟩ := leastIndent_spec ⟨l, mem_inkedLines.1 hl⟩
    refine ⟨_, List.mem_map_of_mem (mem_inkedLines.2 ⟨hk, hink⟩), ?_⟩
    rw [(parts_rebaseLine hbase _ hink).1, ← hleast, List.drop_length, List.append_nil]

/-- Lines of code are all moved by the same number of bytes. -/
theorem forall₂_rebaseLine {ls ms : List Text} (hms : ∀ l ∈ ms, l ∈ inkedLines ls) :
    List.Forall₂ (fun l m => trim m = trim l ∧ ((leadingBlanks m).length : Int)
      = (leadingBlanks l).length + ((base.length : Int) - leastIndent ls))
      ms (ms.map (rebaseLine base (leastIndent ls))) := by
  rw [List.forall₂_map_right_iff, List.forall₂_same]
  intro l hl
  obtain ⟨hmem, hink⟩ := mem_inkedLines.1 (hms l hl)
  refine ⟨trim_rebaseLine hbase _ l, ?_⟩
  have hle := (leastIndent_spec ⟨l, hmem, hink⟩).2 l hmem hink
  rw [(parts_rebaseLine hbase _ hink).1, List.length_append, List.length_drop]
  omega

end Rebase

/-! ## Blank lines between lines of code -/

/-- The numbers of blank lines in front of each line of code, but for the first of them unless there
was one before, with so many blank lines behind it. -/
def gapsFrom : Option Nat → List Text → List Nat
  | _, [] => []
  | none, l :: ls => gapsFrom (if isSpaces l then none else some 0) ls
  | some n, l :: ls => if isSpaces l then gapsFrom (some (n + 1)) ls else n :: gapsFrom (some 0) ls

/-- The numbers of blank lines between each line of code and the next. -/
def gaps (ls : List Text) : List Nat := gapsFrom none ls

theorem gaps_cons (l : Text) (ls : List Text) :
    gaps (l :: ls) = gapsFrom (if isSpaces l then none else some 0) ls := rfl

/-- Gaps depend on nothing but which lines are blank. -/
theorem gapsFrom_map {f : Text → Text} (hf : ∀ l, isSpaces (f l) = isSpaces l) (before : Option Nat)
    (ls : List Text) : gapsFrom before (ls.map f) = gapsFrom before ls := by
  induction ls generalizing before with
  | nil => cases before <;> rfl
  | cons l ls ih =>
    cases before with
    | none => rw [List.map_cons, gapsFrom, gapsFrom, hf, ih]
    | some n => rw [List.map_cons, gapsFrom, gapsFrom, hf, ih, ih]

theorem gaps_dropWhile (ls : List Text) : gaps (ls.dropWhile isSpaces) = gaps ls := by
  induction ls with
  | nil => rfl
  | cons l ls ih =>
    cases hl : isSpaces l with
    | true => rw [List.dropWhile_cons_of_pos hl, ih, gaps_cons, if_pos hl, gaps]
    | false => rw [List.dropWhile_cons_of_neg (by simp [hl])]

theorem gapsFrom_eq_nil {w : List Text} (hw : ∀ l ∈ w, isSpaces l = true) (before : Option Nat) :
    gapsFrom before w = [] := by
  induction w generalizing before with
  | nil => cases before <;> rfl
  | cons l w ih =>
    rw [List.forall_mem_cons] at hw
    cases before with
    | none => rw [gapsFrom, ih hw.2]
    | some n => rw [gapsFrom, if_pos hw.1, ih hw.2]

/-- Blank lines behind the last line of code stand between no two of them. -/
theorem gapsFrom_append {w : List Text} (hw : ∀ l ∈ w, isSpaces l = true) (before : Option Nat)
    (ls : List Text) : gapsFrom before (ls ++ w) = gapsFrom before ls := by
  induction ls generalizing before with
  | nil => rw [List.nil_append, gapsFrom_eq_nil hw, gapsFrom_eq_nil (by simp)]
  | cons l ls ih =>
    cases before with
    | none => rw [List.cons_append, gapsFrom, gapsFrom, ih]
    | some n => rw [List.cons_append, gapsFrom, gapsFrom, ih, ih]

/-! ## The lines of code -/

theorem inkedLines_dropWhile (ls : List Text) :
    inkedLines (ls.dropWhile isSpaces) = inkedLines ls := by
  induction ls with
  | nil => rfl
  | cons l ls ih =>
    cases hl : isSpaces l with
    | true =>
      rw [List.dropWhile_cons_of_pos hl, ih, inkedLines, inkedLines,
        List.filter_cons_of_neg (by simp [hl])]
    | false => rw [List.dropWhile_cons_of_neg (by simp [hl])]

theorem inkedLines_append (ls ms : List Text) :
    inkedLines (ls ++ ms) = inkedLines ls ++ inkedLines ms := List.filter_append ls ms

theorem isSpaces_blanks_trim {lead : Text} (hlead : ∀ c ∈ lead, isBlank c = true) (l : Text) :
    isSpaces (lead ++ trim l) = isSpaces l := by
  rw [isSpaces_blanks_append hlead, ← isEmpty_trim, trim_trim, isEmpty_trim]

/-- The code of a block has the lines of code below the opening brace, behind the text behind the
brace. -/
theorem exists_inkedLines_blockContent {inner head : Text} {below : List Text}
    (hlines : splitLines inner = head :: below) : ∃ lead, (∀ c ∈ lead, isBlank c = true) ∧
      inkedLines (blockContent inner)
        = (if isSpaces head then [] else [lead ++ trim head]) ++ inkedLines below := by
  obtain ⟨lead, middle, last, hlead, rfl, hlast, hcontent⟩ := exists_blockContent hlines
  have hnone : inkedLines last = [] := List.filter_eq_nil_iff.2 fun l hl => by simp [hlast l hl]
  refine ⟨lead, hlead, ?_⟩
  rw [hcontent, inkedLines_dropWhile, inkedLines_append, inkedLines_append, hnone, List.append_nil]
  congr 1
  cases hhead : isSpaces head with
  | true => rfl
  | false => simp [inkedLines, isSpaces_blanks_trim hlead, hhead]

theorem map_trim_inkedLines_blockContent (inner : Text) :
    (inkedLines (blockContent inner)).map trim = (inkedLines (splitLines inner)).map trim := by
  obtain ⟨head, below, hlines⟩ := List.exists_cons_of_ne_nil (splitLines_ne_nil inner)
  obtain ⟨lead, hlead, hinked⟩ := exists_inkedLines_blockContent hlines
  rw [hinked, hlines]
  cases hhead : isSpaces head with
  | true => simp [inkedLines, hhead]
  | false => simp [inkedLines, hhead, trim_blanks_append hlead, trim_trim]

theorem gaps_blockContent (inner : Text) : gaps (blockContent inner) = gaps (splitLines inner) := by
  obtain ⟨head, below, hlines⟩ := List.exists_cons_of_ne_nil (splitLines_ne_nil inner)
  obtain ⟨lead, middle, last, hlead, rfl, hlast, hcontent⟩ := exists_blockContent hlines
  rw [hcontent, gaps_dropWhile, hlines, gaps_cons, gapsFrom_append hlast]
  cases hhead : isSpaces head with
  | true => rfl
  | false =>
    rw [if_neg (by simp), if_neg (by simp), List.singleton_append, gaps_cons,
      isSpaces_blanks_trim hlead, hhead]
    rfl

theorem blockContent_head (inner : Text) :
    ∀ l ∈ (blockContent inner).head?, isSpaces l = false := by
  intro l hl
  obtain ⟨head, below, hlines⟩ := List.exists_cons_of_ne_nil (splitLines_ne_nil inner)
  obtain ⟨lead, middle, _, -, -, -, hcontent⟩ := exists_blockContent hlines
  have hnot := List.head?_dropWhile_not isSpaces
    ((if isSpaces head then [] else [lead ++ trim head]) ++ middle)
  rw [Option.mem_def] at hl
  rwa [← hcontent, hl] at hnot

theorem newline_notMem_blockContent {inner l : Text} (h : l ∈ blockContent inner) :
    newline ∉ l := by
  obtain ⟨head, below, hlines, hplace⟩ := mem_blockContent h
  have hnone : ∀ k ∈ head :: below, newline ∉ k := by
    rw [← hlines]
    exact fun k hk => newline_notMem_of_mem_splitLines hk
  rcases hplace with hl | ⟨w, hw, rfl⟩
  · exact hnone l (List.mem_cons_of_mem head hl)
  · rw [List.mem_append, not_or]
    exact ⟨newline_notMem_of_blanks hw,
      fun hmem => hnone head List.mem_cons_self (mem_of_mem_trim hmem)⟩

theorem newline_notMem_rebase_blockContent {base inner : Text}
    (hbase : ∀ c ∈ base, isBlank c = true) :
    ∀ l ∈ rebase base (blockContent inner), newline ∉ l := by
  intro l hl
  obtain ⟨k, hk, rfl⟩ := List.mem_map.1 hl
  exact fun hmem => (mem_rebaseLine hmem).elim (newline_notMem_of_blanks hbase)
    (newline_notMem_blockContent hk)

theorem rebase_blockContent_head {base inner : Text} (hbase : ∀ c ∈ base, isBlank c = true) :
    ∀ l ∈ (rebase base (blockContent inner)).head?, isSpaces l = false := by
  intro l hl
  rw [rebase, List.head?_map, Option.mem_def, Option.map_eq_some_iff] at hl
  obtain ⟨k, hk, rfl⟩ := hl
  rw [isSpaces_rebaseLine_eq hbase]
  exact blockContent_head inner k hk

theorem relative_rebase_blockContent {base : Text} (hbase : ∀ c ∈ base, isBlank c = true)
    (inner : Text) : ∃ shift : Int, List.Forall₂
      (fun l m => trim m = trim l ∧
        ((leadingBlanks m).length : Int) = (leadingBlanks l).length + shift)
      (inkedLines (splitLines inner).tail)
      ((inkedLines (rebase base (blockContent inner))).drop
        (inkedLines ((splitLines inner).take 1)).length) := by
  obtain ⟨head, below, hlines⟩ := List.exists_cons_of_ne_nil (splitLines_ne_nil inner)
  obtain ⟨lead, -, hinked⟩ := exists_inkedLines_blockContent hlines
  have hfirst : (if isSpaces head then [] else [lead ++ trim head]).length
      = (inkedLines ((splitLines inner).take 1)).length := by
    rw [hlines]
    cases hhead : isSpaces head with
    | true => simp [inkedLines, hhead]
    | false => simp [inkedLines, hhead]
  refine ⟨(base.length : Int) - leastIndent (blockContent inner), ?_⟩
  rw [inkedLines_rebase hbase, ← List.map_drop, hinked, ← hfirst, List.drop_left, hlines]
  refine forall₂_rebaseLine hbase fun l hl => ?_
  rw [hinked]
  exact List.mem_append_right _ hl

/-! ## A block written anew -/

/-- Lines that hold the code of the text between the braces of a block, at two steps of
indentation. -/
structure Reflowed (unit inner : Text) (content : List Text) : Prop where
  /-- Every line is one line. -/
  oneLine : ∀ l ∈ content, newline ∉ l
  /-- The lines of code are those of the text, in order. -/
  code : (inkedLines content).map trim = (inkedLines (splitLines inner)).map trim
  /-- There are as many blank lines between them as in the text. -/
  gaps : gaps content = gaps (splitLines inner)
  /-- Blank lines are empty. -/
  blank : ∀ l ∈ content, isSpaces l = true → l = []
  /-- The first line is a line of code. -/
  starts : ∀ l ∈ content.head?, isSpaces l = false
  /-- Every line of code is indented by two steps at least. -/
  indented : ∀ l ∈ inkedLines content, unit ++ unit <+: leadingBlanks l
  /-- One line of code is indented by two steps exactly, if there is any. -/
  least : inkedLines content ≠ [] → ∃ l ∈ inkedLines content, leadingBlanks l = unit ++ unit
  /-- The lines of code below the first line of the text are all moved by the same number of bytes,
  so their indentations differ by as much as before. -/
  relative : ∃ shift : Int, List.Forall₂
    (fun l m => trim m = trim l ∧
      ((leadingBlanks m).length : Int) = (leadingBlanks l).length + shift)
    (inkedLines (splitLines inner).tail)
    ((inkedLines content).drop (inkedLines ((splitLines inner).take 1)).length)

section Reflow

variable {unit : Text} (hunit : ∀ c ∈ unit, isBlank c = true) (inner : Text)
include hunit

theorem reflowed_rebase : Reflowed unit inner (rebase (unit ++ unit) (blockContent inner)) := by
  have hbase : ∀ c ∈ unit ++ unit, isBlank c = true := List.forall_mem_append.2 ⟨hunit, hunit⟩
  obtain ⟨hindented, hleast⟩ := leadingBlanks_rebase hbase (blockContent inner)
  exact
    { oneLine := newline_notMem_rebase_blockContent hbase
      code := by rw [map_trim_inkedLines_rebase hbase, map_trim_inkedLines_blockContent]
      gaps := by
        rw [gaps, rebase, gapsFrom_map (isSpaces_rebaseLine_eq hbase _), ← gaps, gaps_blockContent]
      blank := fun l hl hblank => by
        obtain ⟨k, -, rfl⟩ := List.mem_map.1 hl
        rw [isSpaces_rebaseLine_eq hbase] at hblank
        exact if_pos hblank
      starts := rebase_blockContent_head hbase
      indented := hindented
      least := hleast
      relative := relative_rebase_blockContent hbase inner }

/-- A block keeps its lines of code and the blank lines between them when it is written anew, and
the lines below its opening brace keep their indentation relative to each other. -/
theorem reflowBlock_keeps : ∃ content,
    reflowBlock unit (openBrace :: (inner ++ [closeBrace]))
      = openBrace :: newline :: (content.flatMap (· ++ [newline]) ++ (unit ++ [closeBrace])) ∧
    Reflowed unit inner content :=
  ⟨rebase (unit ++ unit) (blockContent inner), reflowBlock_braces unit inner,
    reflowed_rebase hunit inner⟩

end Reflow

/-- Code that starts behind the opening brace is lined up with the least indented line below, here
the last; the line that is nested keeps its two bytes beyond it, and the blank line is emptied. -/
theorem reflowBlock_keeps_nested : ∃ content,
    reflowBlock (bytes "  ") (bytes "\x7b if x\n \n      y\n    end\n  \x7d")
      = bytes "\x7b\n    if x\n\n      y\n    end\n  \x7d" ∧
    bytes "\x7b\n    if x\n\n      y\n    end\n  \x7d"
      = openBrace :: newline :: (content.flatMap (· ++ [newline]) ++ (bytes "  " ++ [closeBrace])) ∧
    Reflowed (bytes "  ") (bytes " if x\n \n      y\n    end\n  ") content := by
  have hunit : ∀ c ∈ bytes "  ", isBlank c = true := by decide +kernel
  obtain ⟨content, hreflow, hkept⟩ :=
    reflowBlock_keeps hunit (bytes " if x\n \n      y\n    end\n  ")
  have hbraces : bytes "\x7b if x\n \n      y\n    end\n  \x7d"
      = openBrace :: (bytes " if x\n \n      y\n    end\n  " ++ [closeBrace]) := by decide +kernel
  have hwritten : reflowBlock (bytes "  ") (bytes "\x7b if x\n \n      y\n    end\n  \x7d")
      = bytes "\x7b\n    if x\n\n      y\n    end\n  \x7d" := by decide +kernel
  exact ⟨content, hwritten, (hwritten.symm.trans (congrArg _ hbraces)).trans hreflow, hkept⟩

end GrammarLayout
