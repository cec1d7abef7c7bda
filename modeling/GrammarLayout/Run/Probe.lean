import GrammarLayout.Diagnostic.Basic
import GrammarLayout.Pass.Pipeline
import GrammarLayout.Source.File
import GrammarLayout.Timing.Timer
import GrammarLayout.Trace.Recorder

/-!
# Formatting under observation

A probe holds the trace and the timer of a piece of work.  `formatObserved`
formats a grammar like `format` does and notes each phase in both: reading,
every pass, and writing.
-/

namespace GrammarLayout

open Text

/-- What observes a piece of work. -/
structure Probe where
  /-- The trace. -/
  recorder : Recorder := {}
  /-- The timer. -/
  timer : Timer := {}
  deriving Repr, DecidableEq

/-- The time on the clock of a trace, in nanoseconds. -/
def Recorder.clock (r : Recorder) : Nat := (r.now.seconds * 1000000000 + r.now.nanos).toNat

namespace Probe

/-- Notes one phase from beginning to end, below the span `current`. -/
def phase (p : Probe) (current : Nat) (name note : Text) (facts : List (Text × Text))
    (failure : Option Text) : Probe :=
  let (recorder, span) := p.recorder.startSpan .pass name current
  let (timer, i) := p.timer.start p.recorder.clock name
  let timer := timer.stop p.recorder.clock i note
  let recorder := (failure.map (recorder.failSpan span)).getD recorder
  let span := facts.foldl (fun s f => s.withExtra f.1 f.2) span
  { recorder := recorder.endSpan span note, timer := timer }

end Probe

/-- The number of rules, as it is noted after reading. -/
def ruleCountNote (d : Document) : Text := ofNat d.rules.length ++ bytes " rules"

/-- Runs passes one after the other and notes each. -/
def runPassesObserved (style : Style) (current : Nat) :
    List PassName → Probe → Document → Probe × Document
  | [], p, d => (p, d)
  | pass :: rest, p, d =>
      runPassesObserved style current rest (p.phase current pass.key [] [] none) (pass.run style d)

/-- Formats a text with the given passes, noting each phase below the span `current`. -/
def formatObserved (style : Style) (passes : List PassName) (current : Nat) (p : Probe)
    (text : Text) : Probe × Except ParseError Text :=
  match Document.parse text with
  | .error e =>
      (p.phase current (bytes "parse") (bytes "failed") [] (some e.failure.message), .error e)
  | .ok d =>
      let p := p.phase current (bytes "parse") (ruleCountNote d) [] none
      let (p, d) := runPassesObserved style current passes p d
      let out := d.render
      let size := [(bytes "bytes", ofNat out.length)]
      (p.phase current (bytes "serialize") [] size none, .ok out)

/-- Formats the content of a file that is not on disk, in the form that it has. -/
def formatContent (style : Style) (p : Probe) (name content : Text) :
    Probe × Except Failure Text :=
  let (_, file) := ({} : FileSet).addVirtual name content
  let (p, result) := formatObserved style style.passes 0 p file.content
  match result with
  | .error e => (p, .error (e.failure.withPath name))
  | .ok out => (p, .ok (file.restore out))

end GrammarLayout
