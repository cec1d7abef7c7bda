import GrammarLayout.Text.Case
import GrammarLayout.Text.Quoted

/-!
# What is traced, and how

A trace has a level, which decides by its scope whether an event is kept; a
format, in which events are written; and a mode, which says whether they are
written at once or held in memory.  Each has names that a user may write.
-/

namespace GrammarLayout

open Text

/-! ## Scopes and levels -/

/-- The part of a run that an event belongs to. -/
inductive Scope where
  | driver | pass | file | error
  /-- A number that stands for no known part. -/
  | other (number : Nat)
  deriving Repr, DecidableEq

namespace Scope

/-- The number of a scope; finer ones are greater. -/
def number : Scope → Nat
  | driver => 1
  | pass => 2
  | file => 3
  | error => 4
  | other n => n

/-- The scope with a number. -/
def ofNumber (n : Nat) : Scope :=
  match n with
  | 1 => driver
  | 2 => pass
  | 3 => file
  | 4 => error
  | n => other n

/-- The name of a scope. -/
def name : Scope → Text
  | driver => bytes "driver"
  | pass => bytes "pass"
  | file => bytes "file"
  | error => bytes "error"
  | other _ => bytes "unknown"

end Scope

/-- How much is traced. -/
inductive TraceLevel where
  /-- Nothing. -/
  | off
  /-- Failures. -/
  | error
  /-- Failures, the run and its passes. -/
  | phase
  /-- Also single files. -/
  | detail
  /-- Everything. -/
  | debug
  /-- A number that stands for no known level. -/
  | other
  deriving Repr, DecidableEq

namespace TraceLevel

/-- The level with a number. -/
def ofNumber : Nat → TraceLevel
  | 0 => off
  | 1 => error
  | 2 => phase
  | 3 => detail
  | 4 => debug
  | _ => other

/-- The name of a level. -/
def name : TraceLevel → Text
  | off => bytes "off"
  | error => bytes "error"
  | phase => bytes "phase"
  | detail => bytes "detail"
  | debug => bytes "debug"
  | other => bytes "unknown"

/-- Is an event of this scope kept? -/
def keeps (l : TraceLevel) (s : Scope) : Bool :=
  match l with
  | off => false
  | error => s = .error
  | phase => s.number ≤ Scope.pass.number || s = .error
  | detail => true
  | debug => true
  | other => false

/-- Is anything traced at all? -/
def enabled (l : TraceLevel) : Bool := l ≠ off

/-- The words that name levels, in small or in capital letters. -/
def words : List (Text × TraceLevel) :=
  [ (bytes "off", off), (bytes "OFF", off), (bytes "error", error), (bytes "ERROR", error),
    (bytes "phase", phase), (bytes "PHASE", phase), (bytes "pass", phase), (bytes "PASS", phase),
    (bytes "detail", detail), (bytes "DETAIL", detail), (bytes "debug", debug),
    (bytes "DEBUG", debug) ]

/-- The level that a word names, or a message. -/
def parse (word : Text) : Except Text TraceLevel :=
  match words.lookup word with
  | some l => .ok l
  | none =>
      .error (bytes "invalid trace level: " ++ quoted word
        ++ bytes " (expected: off|error|phase|detail|debug)")

end TraceLevel

/-! ## Formats and modes -/

/-- How events are written. -/
inductive TraceFormat where
  /-- As the name of the output asks. -/
  | auto
  /-- A line for readers. -/
  | text
  /-- A line of JSON. -/
  | ndjson
  /-- A number that stands for no known format. -/
  | other (number : Nat)
  deriving Repr, DecidableEq

namespace TraceFormat

/-- The number of a format. -/
def number : TraceFormat → Nat
  | auto => 0
  | text => 1
  | ndjson => 2
  | other n => n

/-- The format with a number. -/
def ofNumber (n : Nat) : TraceFormat :=
  match n with
  | 0 => auto
  | 1 => text
  | 2 => ndjson
  | n => other n

/-- The format that a word names, or a message. -/
def parse (word : Text) : Except Text TraceFormat :=
  let w := fold word
  if w = [] ∨ w = bytes "auto" then .ok auto
  else if w = bytes "text" then .ok text
  else if w = bytes "ndjson" ∨ w = bytes "json" then .ok ndjson
  else
    .error (bytes "invalid trace format: " ++ quoted word ++ bytes " (expected: auto|text|ndjson)")

/-- The format used for an output. -/
def resolve (f : TraceFormat) (path : Text) : TraceFormat :=
  if f ≠ auto then f
  else if endsWith (bytes ".ndjson") path || endsWith (bytes ".json") path then ndjson
  else text

end TraceFormat

/-- Where events go. -/
inductive TraceMode where
  /-- They are written at once. -/
  | stream
  /-- The latest are held in memory. -/
  | ring
  /-- A number that stands for no known mode. -/
  | other
  deriving Repr, DecidableEq

namespace TraceMode

/-- The mode with a number. -/
def ofNumber : Nat → TraceMode
  | 1 => stream
  | 2 => ring
  | _ => other

/-- The name of a mode. -/
def name : TraceMode → Text
  | stream => bytes "stream"
  | ring => bytes "ring"
  | other => bytes "unknown"

/-- The mode that a word names, or a message. -/
def parse (word : Text) : Except Text TraceMode :=
  let w := fold word
  if w = bytes "stream" then .ok stream
  else if w = bytes "ring" then .ok ring
  else .error (bytes "invalid storage mode: " ++ quoted word ++ bytes " (expected: stream|ring)")

end TraceMode

end GrammarLayout
