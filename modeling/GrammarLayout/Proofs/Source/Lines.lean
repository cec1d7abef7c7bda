import GrammarLayout.Proofs.Text.Lines
import GrammarLayout.Source.File

/-!
# The lines of a file

A file remembers where its newlines stand, and finds a line between two of these
places.  A text that is read is cut behind each of its newlines instead.  The two
ways of numbering lines agree, also when the last line has no newline, and when
there is no line at all.

What is proved here:

* `newlinesFrom_append_newline` — a newline ends the first line, and the others
  stand behind it;
* `SourceFile.lineCount_eq`, `SourceFile.line_eq` — the lines of a file are the lines
  of its content;
* `FileSet.Built.indexed` — in a set that was built file by file all newlines are
  known.
-/

namespace GrammarLayout

open Ascii Text

/-! ## The places of newlines -/

theorem newlinesFrom_eq_map (i : Nat) (s : Text) :
    newlinesFrom i s = (newlinesFrom 0 s).map (i + ·) := by
  induction s generalizing i with
  | nil => rfl
  | cons c s ih =>
    have hrest : newlinesFrom (i + 1) s = (newlinesFrom (0 + 1) s).map (i + ·) := by
      rw [ih (i + 1), ih (0 + 1), List.map_map]
      exact List.map_congr_left fun n _ => by simp only [Function.comp_apply]; omega
    rw [newlinesFrom, newlinesFrom, hrest]
    split <;> simp

theorem length_newlinesFrom (i : Nat) (s : Text) :
    (newlinesFrom i s).length = (newlinesFrom 0 s).length := by
  rw [newlinesFrom_eq_map, List.length_map]

theorem newlinesFrom_of_newline_notMem {s : Text} (h : newline ∉ s) (i : Nat) :
    newlinesFrom i s = [] := by
  induction s generalizing i with
  | nil => rfl
  | cons c s ih =>
    rw [List.mem_cons, not_or] at h
    rw [newlinesFrom, if_neg (Ne.symm h.1), ih h.2]

/-- The first newline ends the first line, all others stand behind it. -/
theorem newlinesFrom_append_newline {a : Text} (ha : newline ∉ a) (i : Nat) (b : Text) :
    newlinesFrom i (a ++ newline :: b)
      = (i + a.length) :: newlinesFrom (i + a.length + 1) b := by
  induction a generalizing i with
  | nil => rfl
  | cons c a ih =>
    rw [List.mem_cons, not_or] at ha
    rw [List.cons_append, newlinesFrom, if_neg (Ne.symm ha.1), ih ha.2, List.length_cons,
      show i + 1 + a.length = i + (a.length + 1) by omega]

/-- Each newline ends a line; what stands behind the last newline is one more. -/
theorem length_lines (s : Text) : (lines s).length
    = (newlinesFrom 0 s).length + (if s.getLast?.getD newline = newline then 0 else 1) := by
  induction h : s.length using Nat.strongRecOn generalizing s with
  | _ n ih =>
    rcases exists_line_or (s := s) with hnone | ⟨a, b, ha, rfl⟩
    · rw [newlinesFrom_of_newline_notMem hnone]
      by_cases hs : s = []
      · rw [hs]
        rfl
      · rw [lines_of_newline_notMem hnone hs, if_neg]
        · rfl
        · rw [List.getLast?_eq_some_getLast hs, Option.getD_some]
          exact fun hlast => hnone (hlast ▸ List.getLast_mem hs)
    · have hb := ih b.length (by rw [← h, List.length_append, List.length_cons]; omega) b rfl
      have hlast : (a ++ newline :: b).getLast?.getD newline = b.getLast?.getD newline := by
        simp [List.getLast?_append, List.getLast?_cons]
      rw [lines_append_newline ha, newlinesFrom_append_newline ha, hlast, List.length_cons,
        List.length_cons, length_newlinesFrom, hb]
      omega

/-! ## The ends of a line -/

/-- The place where the line behind `n` others starts. -/
def lineStart (s : Text) (n : Nat) : Nat :=
  if n = 0 then 0 else ((newlinesFrom 0 s)[n - 1]?.map (· + 1)).getD 0

/-- The place where the line behind `n` others stops, in front of its newline. -/
def lineStop (s : Text) (n : Nat) : Nat := (newlinesFrom 0 s)[n]?.getD s.length

section AppendNewline

variable {a : Text} (ha : newline ∉ a) (b : Text)
include ha

theorem lineStart_append_newline {n : Nat} (hn : n ≤ (newlinesFrom 0 b).length) :
    lineStart (a ++ newline :: b) (n + 1) = a.length + 1 + lineStart b n := by
  rw [lineStart, if_neg (Nat.succ_ne_zero n), newlinesFrom_append_newline ha, lineStart,
    newlinesFrom_eq_map]
  cases n with
  | zero => simp
  | succ n =>
    have hlt : n < (newlinesFrom 0 b).length := hn
    simp [List.getElem?_eq_getElem hlt]
    omega

theorem lineStop_append_newline (n : Nat) :
    lineStop (a ++ newline :: b) (n + 1) = a.length + 1 + lineStop b n := by
  rw [lineStop, newlinesFrom_append_newline ha, lineStop, newlinesFrom_eq_map]
  cases h : (newlinesFrom 0 b)[n]? with
  | none =>
    simp [h]
    omega
  | some i => simp [h]

end AppendNewline

/-- What stands between the ends of a line is the line without its newline. -/
theorem drop_take_line {s l : Text} {n : Nat} (h : (lines s)[n]? = some l) :
    (s.take (lineStop s n)).drop (lineStart s n) = dropEnd [newline] l := by
  induction hlen : s.length using Nat.strongRecOn generalizing s n with
  | _ k ih =>
    rcases exists_line_or (s := s) with hnone | ⟨a, b, ha, rfl⟩
    · by_cases hs : s = []
      · rw [hs] at h
        simp [lines] at h
      · rw [lines_of_newline_notMem hnone hs, List.getElem?_singleton] at h
        split at h
        · rename_i hn
          obtain rfl := Option.some.inj h
          rw [hn, lineStart, lineStop, newlinesFrom_of_newline_notMem hnone]
          simp [dropEnd_newline_of_notEnded (not_ended_of_newline_notMem hnone)]
        · cases h
    · rw [lines_append_newline ha] at h
      cases n with
      | zero =>
        rw [List.getElem?_cons_zero] at h
        rw [← Option.some.inj h, dropEnd_concat, lineStart, lineStop,
          newlinesFrom_append_newline ha]
        simp
      | succ n =>
        rw [List.getElem?_cons_succ] at h
        have hn : n ≤ (newlinesFrom 0 b).length := by
          have hlt := (List.getElem?_eq_some_iff.1 h).1
          rw [length_lines] at hlt
          split at hlt <;> omega
        have hb := ih b.length (by rw [← hlen, List.length_append, List.length_cons]; omega) h rfl
        have hlen' : a.length + 1 = (a ++ [newline]).length := by simp
        rw [lineStart_append_newline ha b hn, lineStop_append_newline ha, List.append_cons, hlen',
          List.take_length_add_append, List.drop_length_add_append, hb]

/-! ## Files whose newlines are known -/

namespace SourceFile

/-- The file knows where its newlines stand. -/
def Indexed (f : SourceFile) : Prop := f.newlines = newlinesFrom 0 f.content

variable {f : SourceFile} (h : f.Indexed)
include h

theorem lineCount_eq : f.lineCount = (lines f.content).length := by
  rw [lineCount, length_lines, h]
  cases f.content.getLast? with
  | none => rfl
  | some c =>
    by_cases hc : c = newline
    · simp [hc]
    · simp [hc]

/-- A file has the lines of its content, by their numbers, and no others. -/
theorem line_eq (n : Int) : f.line n
    = if n < 1 then [] else ((lines f.content)[n.toNat - 1]?.map (dropEnd [newline])).getD [] := by
  rw [line, lineCount_eq h]
  by_cases hlow : n < 1
  · rw [if_pos (Or.inl hlow), if_pos hlow]
  · by_cases hhigh : ((lines f.content).length : Int) < n
    · rw [if_pos (Or.inr hhigh), if_neg hlow, List.getElem?_eq_none (by omega)]
      rfl
    · have hlt : n.toNat - 1 < (lines f.content).length := by omega
      rw [if_neg (by omega), if_neg hlow, List.getElem?_eq_getElem hlt, Option.map_some,
        Option.getD_some, ← drop_take_line (List.getElem?_eq_getElem hlt), lineStart, lineStop, h]

end SourceFile

/-! ## Sets built file by file -/

namespace FileSet

/-- Sets that were built by adding one version of a file after the other. -/
inductive Built : FileSet → Prop where
  /-- Nothing was added. -/
  | empty : Built {}
  /-- One more version was added. -/
  | add {fs : FileSet} (path content : Text) (flags : FileFlags) :
      Built fs → Built (fs.add path content flags).1

/-- Every version knows where its newlines stand. -/
theorem Built.indexed {fs : FileSet} (h : fs.Built) : ∀ f ∈ fs.files, f.Indexed := by
  induction h with
  | empty => simp
  | add path content flags _ ih =>
    intro f hf
    rcases List.mem_append.1 hf with hf | hf
    · exact ih f hf
    · rw [List.mem_singleton.1 hf]
      rfl

end FileSet

end GrammarLayout
