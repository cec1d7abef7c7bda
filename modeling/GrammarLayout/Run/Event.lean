import GrammarLayout.Diagnostic.Basic

/-!
# Progress of a run

While files are formatted, events tell for each of them which stage it has
reached and how it stands.
-/

namespace GrammarLayout

/-- The stages of the work on a file. -/
inductive Stage where
  | load | format | write
  /-- A name that stands for no known stage. -/
  | other (name : Text)
  deriving Repr, DecidableEq

namespace Stage

/-- The name of a stage. -/
def name : Stage → Text
  | load => bytes "load"
  | format => bytes "format"
  | write => bytes "write"
  | other n => n

/-- The stage with a name. -/
def ofName (n : Text) : Stage := ([load, format, write].find? fun s => s.name == n).getD (other n)

end Stage

/-- How the work on a file stands. -/
inductive Status where
  | queued | working | done | cached | error
  /-- A name that stands for no known status. -/
  | other (name : Text)
  deriving Repr, DecidableEq

namespace Status

/-- The name of a status. -/
def name : Status → Text
  | queued => bytes "queued"
  | working => bytes "working"
  | done => bytes "done"
  | cached => bytes "cached"
  | error => bytes "error"
  | other n => n

/-- The status with a name. -/
def ofName (n : Text) : Status :=
  ([queued, working, done, cached, error].find? fun s => s.name == n).getD (other n)

/-- Is the work on the file over? -/
def isFinal : Status → Bool
  | done => true
  | cached => true
  | error => true
  | _ => false

end Status

/-- News of one file. -/
structure ProgressEvent where
  /-- The file. -/
  file : Text
  /-- The stage it has reached. -/
  stage : Stage
  /-- How it stands. -/
  status : Status
  /-- Whether formatting changes it. -/
  changed : Bool := false
  /-- Why it failed. -/
  failure : Option Failure := none
  deriving Repr, DecidableEq

end GrammarLayout
