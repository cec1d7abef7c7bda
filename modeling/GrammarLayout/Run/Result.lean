import GrammarLayout.Run.Event
import GrammarLayout.Timing.Timer

/-!
# Results of a run

Each file of a run has a result; the summary counts them.
-/

namespace GrammarLayout

open Text

/-- What is done with formatted files. -/
inductive RunMode where
  /-- They are printed. -/
  | stdout
  /-- They are written back. -/
  | write
  /-- They are only compared. -/
  | check
  /-- A number that stands for no known mode. -/
  | other
  deriving Repr, DecidableEq

namespace RunMode

/-- The mode with a number. -/
def ofNumber : Nat → RunMode
  | 0 => stdout
  | 1 => write
  | 2 => check
  | _ => other

/-- The name of a mode. -/
def name : RunMode → Text
  | write => bytes "write"
  | check => bytes "check"
  | _ => bytes "stdout"

end RunMode

/-- What became of a file. -/
structure FileResult where
  /-- Its path. -/
  path : Text
  /-- Whether formatting changes it. -/
  changed : Bool := false
  /-- Whether it was known to be formatted. -/
  cached : Bool := false
  /-- Why it failed. -/
  failure : Option Failure := none
  /-- The formatted file, when it is to be printed. -/
  formatted : Option Text := none
  /-- The time its phases took. -/
  timings : TimingReport := {}
  deriving Repr, DecidableEq

/-- How many files came out how. -/
structure Summary where
  /-- All files. -/
  files : Nat := 0
  /-- Those that formatting changes. -/
  changed : Nat := 0
  /-- Those known to be formatted. -/
  cached : Nat := 0
  /-- Those that failed. -/
  failed : Nat := 0
  deriving Repr, DecidableEq

/-- The summary with one more result; a failure counts before all else. -/
def Summary.count (s : Summary) (r : FileResult) : Summary :=
  let s := { s with files := s.files + 1 }
  if r.failure.isSome then { s with failed := s.failed + 1 }
  else if r.cached then { s with cached := s.cached + 1 }
  else if r.changed then { s with changed := s.changed + 1 }
  else s

/-- The summary of results. -/
def summarize (rs : List FileResult) : Summary := rs.foldl Summary.count {}

/-- Why a run with this summary ends in failure, if it does. -/
def Summary.verdict (s : Summary) (mode : RunMode) : Option Failure :=
  if 0 < s.failed then
    some (.plain (bytes "format: failed to format " ++ ofNat s.failed ++ bytes " of "
      ++ ofNat s.files ++ bytes " files"))
  else if mode = .check ∧ 0 < s.changed then
    some (.plain (bytes "format: formatting changes required"))
  else none

end GrammarLayout
