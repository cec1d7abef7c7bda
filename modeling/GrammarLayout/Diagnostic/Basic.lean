import GrammarLayout.Diagnostic.Code
import GrammarLayout.Grammar.Parser

/-!
# Failures

A failure is what a run reports when it cannot go on.  A `Report` says which
part failed, where and why; it may rest on another failure.  Failures of the
surroundings (a missing file, a cancelled run) are plain messages, and a
failure may be given a context in front.
-/

namespace GrammarLayout

open Text

/-- The part of the tool that a report comes from. -/
inductive FailureKind where
  | format | parse | config | io | other
  deriving Repr, DecidableEq

namespace FailureKind

/-- The kind with a number. -/
def ofNumber : Nat → FailureKind
  | 0 => format
  | 1 => parse
  | 2 => config
  | 3 => io
  | _ => other

/-- The name of a kind. -/
def name : FailureKind → Text
  | format => bytes "format"
  | parse => bytes "parse"
  | config => bytes "config"
  | io => bytes "io"
  | other => bytes "unknown"

end FailureKind

/-- What failed, where and why. -/
structure Report where
  /-- The part it comes from. -/
  kind : FailureKind
  /-- Its code. -/
  code : Code
  /-- The file it concerns; empty when there is none. -/
  path : Text := []
  /-- The line it concerns; not positive when there is none. -/
  line : Int := 0
  /-- The reason. -/
  message : Text
  deriving Repr, DecidableEq

/-- The place a report names, as it stands in front of its reason. -/
def Report.place (r : Report) : Text :=
  if !r.path.isEmpty then
    r.path ++ (if 0 < r.line then bytes ":" ++ ofInt r.line else []) ++ bytes ": "
  else if 0 < r.line then bytes "line " ++ ofInt r.line ++ bytes ": "
  else []

/-- Why a run stopped. -/
inductive Failure where
  /-- A message from the surroundings. -/
  | plain (message : Text)
  /-- A report. -/
  | report (r : Report)
  /-- A report that rests on another failure. -/
  | caused (r : Report) (cause : Failure)
  /-- A failure with a context in front. -/
  | within (context : Text) (inner : Failure)
  deriving Repr, DecidableEq

namespace Failure

/-- The failure in words. -/
def message : Failure → Text
  | plain m => m
  | report r => r.place ++ r.message
  | caused r cause => r.place ++ r.message ++ bytes ": " ++ cause.message
  | within context inner => context ++ bytes ": " ++ inner.message

/-- A report with the failure it rests on, if there is one. -/
def ofReport (r : Report) : Option Failure → Failure
  | none => report r
  | some cause => caused r cause

/-- The outermost report of a failure and what it rests on. -/
def report? : Failure → Option (Report × Option Failure)
  | plain _ => none
  | report r => some (r, none)
  | caused r cause => some (r, some cause)
  | within _ inner => inner.report?

/-- The code of a failure. -/
def code (f : Failure) : Code := (f.report?.map fun r => r.1.code).getD .unknown

/-- The failure directly below the outermost layer. -/
def beneath : Failure → Option Failure
  | plain _ => none
  | report _ => none
  | caused _ cause => some cause
  | within _ inner => some inner

/-- Does the failure, or one it rests on, come from a part?  Every report counts as `format`. -/
def isOf (kind : FailureKind) : Failure → Bool
  | plain _ => false
  | report r => kind = .format || r.kind = kind
  | caused r cause => kind = .format || r.kind = kind || cause.isOf kind
  | within _ inner => inner.isOf kind

/-- The outermost report, bound to a file; other failures are kept. -/
def withPath (path : Text) : Failure → Failure
  | plain m => plain m
  | report r => report { r with path := path }
  | caused r cause => caused { r with path := path } cause
  | within _ inner => inner.withPath path

/-- The report of a configuration error. -/
def config (code : Code) (message : Text) (cause : Option Failure) : Failure :=
  ofReport { kind := .config, code := code, message := message } cause

/-- The report of a file error; its reason is the title of its code. -/
def io (code : Code) (path : Text) (cause : Option Failure) : Failure :=
  ofReport { kind := .io, code := code, path := path, message := code.title } cause

/-- The run was cancelled. -/
def cancelled : Failure := plain (bytes "context canceled")

end Failure

/-! ## Faults of a grammar as failures -/

/-- The code of a fault. -/
def ParseFault.code : ParseFault → Code
  | unterminated _ => .unterminatedAction
  | strayBrace _ => .unexpectedBrace
  | surplusBrace _ => .unexpectedBrace
  | headerLike _ _ => .headerLikeProduction

/-- The failure that a fault of a grammar is reported as. -/
def ParseError.failure (e : ParseError) : Failure :=
  .report { kind := .parse, code := e.fault.code, line := e.line, message := e.fault.message }

end GrammarLayout
