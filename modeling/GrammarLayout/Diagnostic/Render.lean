import GrammarLayout.Diagnostic.Basic
import GrammarLayout.Number.Power
import GrammarLayout.Source.File
import GrammarLayout.View.Colour

/-!
# Failures for readers

A report with a place is shown with the lines around that place; all other
failures take one line.  The lines come from a lookup of source files by path,
so the same rendering serves files in memory and on disk.
-/

namespace GrammarLayout

open Text

/-- How the path of a report is shown. -/
inductive PathMode where
  /-- Long absolute paths by their last part, all others as they are. -/
  | auto
  /-- From the root. -/
  | absolute
  /-- From a directory. -/
  | relative
  /-- The last part. -/
  | basename
  /-- As it is. -/
  | unchanged
  deriving Repr, DecidableEq

/-- How failures are shown. -/
structure RenderOptions where
  /-- Whether colours are used. -/
  colour : Bool := false
  /-- The number of lines shown above and below. -/
  context : Int := 0
  /-- How paths are shown. -/
  pathMode : PathMode := .auto
  /-- The directory that paths are shown from; the working directory when empty. -/
  baseDir : Text := []
  /-- The working directory. -/
  cwd : Text := bytes "/"
  deriving Repr, DecidableEq

/-- A path as the options ask. -/
def RenderOptions.showPath (o : RenderOptions) (path : Text) : Text :=
  match o.pathMode with
  | .auto => if 40 ≤ path.length && Path.isAbsolute path then Path.base path else path
  | .absolute => Path.absolute o.cwd path
  | .relative =>
      let start := if o.baseDir.isEmpty then o.cwd else o.baseDir
      (Path.relative? start (Path.absolute o.cwd path)).getD path
  | .basename => Path.base path
  | .unchanged => path

/-- One line of an excerpt: a mark for the line in question, its number and its text. -/
def excerptLine (o : RenderOptions) (f : SourceFile) (marked : Int) (digits n : Nat) : Text :=
  let mark := if (n : Int) = marked then Paint.boldRed.apply o.colour (bytes ">") else [Ascii.space]
  let number := padStart digits Ascii.space (ofNat n) ++ bytes " |"
  mark ++ [Ascii.space] ++ Paint.blue.apply o.colour number ++ [Ascii.space]
    ++ trimTerminator (f.line n) ++ [Ascii.newline]

/-- The lines around line `n` of a file. -/
def excerpt (o : RenderOptions) (f : SourceFile) (n : Int) : Text :=
  let around := max o.context 0
  let first := (max (n - around) 1).toNat
  -- a sum beyond 64 bits wraps around to a negative number, which shows nothing
  let last := (min (Int.bmod (n + around) (twoTo 64)) f.lineCount).toNat
  ((List.range (last + 1 - first)).map fun i =>
    excerptLine o f n (ofNat last).length (first + i)).flatten

/-- The reason of a report, with what it rests on. -/
def Report.reason (r : Report) (cause : Option Failure) : Text :=
  (if r.message.isEmpty then r.code.title else r.message)
    ++ (cause.map fun f => bytes ": " ++ f.message).getD []

/-- The first line of a report. -/
def Report.headline (o : RenderOptions) (r : Report) (cause : Option Failure) : Text :=
  let place :=
    if r.path.isEmpty then []
    else
      Paint.bold.apply o.colour (o.showPath r.path)
        ++ (if 0 < r.line then Paint.bold.apply o.colour (bytes ":" ++ ofInt r.line) else [])
        ++ bytes ": "
  let code :=
    if r.code = .unknown then [] else Ascii.space :: Paint.yellow.apply o.colour r.code.id
  place ++ Paint.boldRed.apply o.colour (bytes "error") ++ code ++ bytes ": " ++ r.reason cause
    ++ bytes "\n"

/-- A failure for readers; `find` gives the source file of a path. -/
def Failure.render (o : RenderOptions) (find : Text → Option SourceFile) (f : Failure) : Text :=
  match f.report? with
  | none => Paint.boldRed.apply o.colour (bytes "error:") ++ bytes " " ++ f.message ++ bytes "\n"
  | some (r, cause) =>
      let lines :=
        if r.path.isEmpty || r.line ≤ 0 then []
        else ((find r.path).map fun file => excerpt o file r.line).getD []
      r.headline o cause ++ lines

end GrammarLayout
