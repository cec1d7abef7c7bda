import GrammarLayout.Diagnostic.Render
import GrammarLayout.Proofs.Grammar.Faults
import GrammarLayout.Proofs.Source.Lines
import GrammarLayout.Proofs.Text.Digits

/-!
# The lines shown with a fault

A fault names a line of a grammar, and the lines around it are shown from the file
that holds the grammar.  Reading, the file and the excerpt each number lines in
their own way: by cutting a text behind its newlines, from the places of the
newlines, and from the first line of the excerpt on.

What is proved here:

* `getElem?_linesAround` — the numbered lines around a line;
* `excerpt_eq` — the excerpt shows these lines, each without its terminator;
* `FileSet.Built.line_numbers_agree` — the marked line is the one that was refused.
-/

namespace GrammarLayout

open Ascii Text

/-! ## The lines around a line -/

/-- The lines of a text with their numbers, from `context` lines in front of line `n` to `context`
lines behind it. -/
def linesAround (context n : Nat) (s : Text) : List (Text × Nat) :=
  (((lines s).zipIdx 1).take (n + context)).drop (n - 1 - context)

/-- The room for the numbers of these lines. -/
def gutterWidth (context n : Nat) (s : Text) : Nat :=
  (ofNat (min (n + context) (lines s).length)).length

/-- A numbered line as it is shown in an excerpt around line `n`. -/
def shownLine (n width : Nat) (numbered : Text × Nat) : Text :=
  (if numbered.2 = n then bytes ">" else [space]) ++ [space]
    ++ padStart width space (ofNat numbered.2) ++ bytes " | "
    ++ trimEndWhile (· == carriageReturn) (dropEnd [newline] numbered.1) ++ [newline]

section LinesAround

variable {context n : Nat} {s l : Text}

theorem getElem?_linesAround (i : Nat) : (linesAround context n s)[i]?
    = if n - 1 - context + i < n + context then
        (lines s)[n - 1 - context + i]?.map fun l => (l, 1 + (n - 1 - context + i))
      else none := by
  rw [linesAround, List.getElem?_drop, List.getElem?_take]
  split
  · rw [List.getElem?_zipIdx]
  · rfl

theorem mem_lines_of_mem_linesAround {x : Text × Nat} (h : x ∈ linesAround context n s) :
    x.1 ∈ lines s := by
  obtain ⟨i, hi⟩ := List.mem_iff_getElem?.1 h
  rw [getElem?_linesAround] at hi
  split at hi
  · obtain ⟨l, hl, rfl⟩ := Option.map_eq_some_iff.1 hi
    exact List.mem_of_getElem? hl
  · cases hi

/-- The line itself is among the lines around it. -/
theorem mem_linesAround (hn : 1 ≤ n) (hl : (lines s)[n - 1]? = some l) :
    (l, n) ∈ linesAround context n s := by
  refine List.mem_iff_getElem?.2 ⟨n - 1 - (n - 1 - context), ?_⟩
  have hindex : n - 1 - context + (n - 1 - (n - 1 - context)) = n - 1 := by omega
  rw [getElem?_linesAround, hindex, if_pos (by omega), hl, Option.map_some]
  congr
  omega

theorem nodup_linesAround : ((linesAround context n s).map Prod.snd).Nodup := by
  have hsub : ((linesAround context n s).map Prod.snd).Sublist
      (((lines s).zipIdx 1).map Prod.snd) :=
    ((List.drop_sublist _ _).trans (List.take_sublist _ _)).map Prod.snd
  rw [List.zipIdx_map_snd] at hsub
  exact hsub.nodup List.nodup_range'

end LinesAround

/-- Of lines with different numbers, one has the number of a given one. -/
theorem filter_snd_eq {x : Text × Nat} {xs : List (Text × Nat)}
    (hnodup : (xs.map Prod.snd).Nodup) (hx : x ∈ xs) : xs.filter (fun y => y.2 = x.2) = [x] := by
  induction xs with
  | nil => cases hx
  | cons y ys ih =>
    rw [List.map_cons, List.nodup_cons] at hnodup
    rcases List.mem_cons.1 hx with rfl | hx
    · have hrest : ys.filter (fun y => y.2 = x.2) = [] := by
        rw [List.filter_eq_nil_iff]
        intro z hz hzx
        exact hnodup.1 (List.mem_map.2 ⟨z, hz, of_decide_eq_true hzx⟩)
      rw [List.filter_cons_of_pos (by simp), hrest]
    · have hne : y.2 ≠ x.2 := fun h => hnodup.1 (List.mem_map.2 ⟨x, hx, h.symm⟩)
      rw [List.filter_cons_of_neg (by simpa using hne), ih hnodup.2 hx]

/-! ## The excerpt -/

/-- A line that is shown is one line. -/
theorem exists_shownLine (n width : Nat) {s : Text} {x : Text × Nat} (hx : x.1 ∈ lines s) :
    ∃ a, newline ∉ a ∧ shownLine n width x = a ++ [newline] := by
  refine ⟨_, ?_, rfl⟩
  have hmark : newline ∉ (if x.2 = n then bytes ">" else [space]) := by
    split <;> decide
  have hnumber : newline ∉ padStart width space (ofNat x.2) := by
    rw [padStart, List.mem_append, not_or]
    exact ⟨fun h => absurd (List.eq_of_mem_replicate h) (by decide), newline_notMem_ofNat x.2⟩
  have htext := newline_notMem_trimTerminator hx
  rw [trimTerminator_of_mem_lines hx] at htext
  simp only [List.mem_append, not_or]
  exact ⟨⟨⟨⟨hmark, by decide⟩, hnumber⟩, by decide⟩, htext⟩

theorem startsWith_shownLine (n width : Nat) (x : Text × Nat) :
    startsWith (bytes ">") (shownLine n width x) = decide (x.2 = n) := by
  have hmark : bytes ">" = [0x3E] := by decide +kernel
  rw [startsWith, shownLine, hmark]
  by_cases hx : x.2 = n
  · simp [hx]
  · rw [if_neg hx, decide_eq_false hx]
    rfl

section Excerpt

variable {o : RenderOptions} {f : SourceFile} (hf : f.Indexed) (hcolour : o.colour = false)
include hf hcolour

theorem excerptLine_eq {n k width : Nat} {l : Text} (hl : (lines f.content)[k]? = some l) :
    excerptLine o f n width (1 + k) = shownLine n width (l, 1 + k) := by
  have hline : f.line ((1 + k : Nat) : Int) = dropEnd [newline] l := by
    have hindex : ((1 + k : Nat) : Int).toNat - 1 = k := by omega
    rw [SourceFile.line_eq hf, if_neg (by omega), hindex, hl]
    rfl
  have hgutter : bytes " |" ++ [space] = bytes " | " := by decide +kernel
  rw [excerptLine, shownLine, hline, trimTerminator_dropEnd_newline,
    trimTerminator_of_mem_lines (List.mem_of_getElem? hl), hcolour, ← hgutter]
  simp only [Paint.apply, Bool.false_eq_true, if_false, Int.ofNat_inj, List.append_assoc]

/-- An excerpt shows the lines around a line, and no others. -/
theorem excerpt_eq (hcontext : 0 ≤ o.context) {n : Nat} (hn : 1 ≤ n)
    (hrange : n + o.context < twoTo 63) :
    excerpt o f n = ((linesAround o.context.toNat n f.content).map
      (shownLine n (gutterWidth o.context.toNat n f.content))).flatten := by
  obtain ⟨c, hc⟩ := Int.eq_ofNat_of_zero_le hcontext
  have hfirst : (max ((n : Int) - max (c : Int) 0) 1).toNat = n - 1 - c + 1 := by omega
  have hbmod : Int.bmod (n + max (c : Int) 0) (twoTo 64) = n + c := by
    have htwice : twoTo 64 = 2 * twoTo 63 := rfl
    rw [htwice, Int.bmod_eq_of_le_mul_two] <;> omega
  have hlast : (min ((n : Int) + c) ((lines f.content).length : Int)).toNat
      = min (n + c) (lines f.content).length := by omega
  simp only [excerpt, hc, Int.toNat_natCast, SourceFile.lineCount_eq hf, hfirst, hbmod, hlast,
    gutterWidth]
  congr 1
  refine List.ext_getElem? fun i => ?_
  rw [List.getElem?_map, List.getElem?_map, getElem?_linesAround]
  by_cases hi : n - 1 - c + i < min (n + c) (lines f.content).length
  · have hlt : n - 1 - c + i < (lines f.content).length := by omega
    have hnumber : n - 1 - c + 1 + i = 1 + (n - 1 - c + i) := by omega
    rw [List.getElem?_range (by omega), if_pos (by omega), List.getElem?_eq_getElem hlt,
      Option.map_some, Option.map_some, Option.map_some, hnumber,
      excerptLine_eq hf hcolour (List.getElem?_eq_getElem hlt)]
  · have hnone : (List.range (min (n + c) (lines f.content).length + 1 - (n - 1 - c + 1)))[i]?
        = none := by
      rw [List.getElem?_eq_none_iff, List.length_range]
      omega
    rw [hnone]
    split
    · rw [List.getElem?_eq_none (by omega)]
      rfl
    · rfl

/-- Each line of an excerpt shows one line of the file. -/
theorem lines_excerpt (hcontext : 0 ≤ o.context) {n : Nat} (hn : 1 ≤ n)
    (hrange : n + o.context < twoTo 63) :
    lines (excerpt o f n) = (linesAround o.context.toNat n f.content).map
      (shownLine n (gutterWidth o.context.toNat n f.content)) := by
  rw [excerpt_eq hf hcolour hcontext hn hrange]
  refine lines_flatten fun x hx => ?_
  obtain ⟨y, hy, rfl⟩ := List.mem_map.1 hx
  exact exists_shownLine _ _ (mem_lines_of_mem_linesAround hy)

end Excerpt

/-! ## The excerpt of a fault -/

/-- A fault as it is reported for a file. -/
def ParseError.report (e : ParseError) (path : Text) : Report :=
  { kind := .parse, code := e.fault.code, path := path, line := e.line, message := e.fault.message }

theorem render_parse_error {o : RenderOptions} {find : Text → Option SourceFile} {path : Text}
    {file : SourceFile} {e : ParseError} (hpath : path ≠ []) (hfind : find path = some file)
    (hline : 1 ≤ e.line) : (e.failure.withPath path).render o find
      = (e.report path).headline o none ++ excerpt o file e.line := by
  have hempty : path.isEmpty = false := by simpa using hpath
  have hpos : e.line ≠ 0 := by omega
  simp [Failure.render, ParseError.failure, Failure.withPath, Failure.report?, ParseError.report,
    hempty, hpos, hfind]

/-- The lines of a file, as it numbers them, are the lines that its content is read in.  So below a
fault stand lines of the file with their numbers, as many around the faulty one as asked for, and
the only one that is marked is the line that reading refused. -/
theorem FileSet.Built.line_numbers_agree {fs : FileSet} (hfs : fs.Built) {file : SourceFile}
    (hfile : file ∈ fs.files) :
    file.lineCount = (lines file.content).length ∧
    (∀ n : Int, file.line n = if n < 1 then []
      else ((lines file.content)[n.toNat - 1]?.map (dropEnd [newline])).getD []) ∧
    ∀ (path : Text) (e : ParseError) (o : RenderOptions), path ≠ [] → fs.find? path = some file →
      Document.parse file.content = .error e → o.colour = false → 0 ≤ o.context →
      e.line + o.context < twoTo 63 →
      (e.failure.withPath path).render o fs.find?
        = (e.report path).headline o none ++ excerpt o file e.line ∧
      lines (excerpt o file e.line) = (linesAround o.context.toNat e.line file.content).map
        (shownLine e.line (gutterWidth o.context.toNat e.line file.content)) ∧
      ∃ l, (lines file.content)[e.line - 1]? = some l ∧
        (lines (excerpt o file e.line)).filter (startsWith (bytes ">")) = [shownLine e.line
          (gutterWidth o.context.toNat e.line file.content) (l, e.line)] := by
  have hindexed := hfs.indexed file hfile
  refine ⟨SourceFile.lineCount_eq hindexed, SourceFile.line_eq hindexed,
    fun path e o hpath hfind hparse hcolour hcontext hrange => ?_⟩
  obtain ⟨hpos, hle⟩ := (Document.parse_eq_error_iff.1 hparse).line_mem
  have hlines := lines_excerpt hindexed hcolour hcontext hpos hrange
  have hline := List.getElem?_eq_getElem (l := lines file.content) (i := e.line - 1) (by omega)
  refine ⟨render_parse_error hpath hfind hpos, hlines, _, hline, ?_⟩
  have hmarked : startsWith (bytes ">") ∘ shownLine e.line
      (gutterWidth o.context.toNat e.line file.content) = fun x => decide (x.2 = e.line) :=
    funext fun x => startsWith_shownLine _ _ x
  rw [hlines, List.filter_map, hmarked,
    filter_snd_eq nodup_linesAround (mem_linesAround hpos hline)]
  rfl

/-- A stray brace on the third of four lines: with one line of context the lines from the second on
are shown, and the third is marked, without the carriage return at its end. -/
theorem line_numbers_agree_strayBrace :
    let set := (FileSet.add {} (bytes "g.y") (bytes "a: b\n  | c\n\x7d d\r\ne: f\n") 0).1
    let e : ParseError := ⟨3, .strayBrace (bytes "a")⟩
    ∃ file ∈ set.files, file.lineCount = 4 ∧
      (e.failure.withPath (bytes "./g.y")).render { context := 1 } set.find?
        = (e.report (bytes "./g.y")).headline { context := 1 } none
          ++ excerpt { context := 1 } file 3 ∧
      lines (excerpt { context := 1 } file 3)
        = [bytes "  2 |   | c\n", bytes "> 3 | \x7d d\n", bytes "  4 | e: f\n"] ∧
      (lines (excerpt { context := 1 } file 3)).filter (startsWith (bytes ">"))
        = [bytes "> 3 | \x7d d\n"] := by
  intro set e
  let file := (FileSet.add {} (bytes "g.y") (bytes "a: b\n  | c\n\x7d d\r\ne: f\n") 0).2
  have hbuilt : set.Built := .add (bytes "g.y") _ 0 .empty
  have hfile : file ∈ set.files := List.mem_singleton_self file
  have hfind : set.find? (bytes "./g.y") = some file := by
    have hlatest : set.latest? (bytes "./g.y") = some 0 := by decide +kernel
    rw [FileSet.find?, hlatest]
    rfl
  have hparse : Document.parse file.content = .error e := by decide +kernel
  obtain ⟨hcount, -, hexcerpt⟩ := hbuilt.line_numbers_agree hfile
  obtain ⟨hrender, hlines, l, hl, hmarked⟩ := hexcerpt (bytes "./g.y") e { context := 1 }
    (by decide +kernel) hfind hparse rfl (by decide) (by decide)
  have hl' : l = bytes "\x7d d\r\n" := by
    have hthird : (lines file.content)[e.line - 1]? = some (bytes "\x7d d\r\n") := by decide +kernel
    exact Option.some.inj (hl.symm.trans hthird)
  refine ⟨file, hfile, hcount.trans (by decide +kernel), hrender, hlines.trans (by decide +kernel),
    hmarked.trans ?_⟩
  rw [hl']
  decide +kernel

end GrammarLayout
