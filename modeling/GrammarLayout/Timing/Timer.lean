import GrammarLayout.Number.Decimal
import GrammarLayout.Text.Utf8

/-!
# Timings

A timer notes when the phases of one piece of work begin and end.  Its report
gives their durations in milliseconds, and reports are added up by the names of
their phases.
-/

namespace GrammarLayout

open Text

/-! ## Reports -/

/-- The time that a phase took. -/
structure PhaseTiming where
  /-- The name of the phase. -/
  name : Text
  /-- The milliseconds it took. -/
  duration : Double
  /-- How often it ran. -/
  count : Int
  /-- A remark. -/
  note : Text
  deriving Repr, DecidableEq

/-- The times that the phases of some work took. -/
structure TimingReport where
  /-- The milliseconds of all phases. -/
  total : Double := .zero
  /-- The phases. -/
  phases : List PhaseTiming := []
  deriving Repr, DecidableEq

/-- A name in a column of 20 characters and a time with two places in a column of seven. -/
def timingColumns (name : Text) (duration : Double) : Text :=
  bytes "  " ++ name ++ List.replicate (20 - (pieces name).length) Ascii.space ++ bytes " "
    ++ padStart 7 Ascii.space (duration.fixed 2) ++ bytes " ms"

/-- The line of one phase. -/
def PhaseTiming.line (p : PhaseTiming) : Text :=
  timingColumns p.name p.duration
    ++ (if 1 < p.count then bytes "  x" ++ ofInt p.count else [])
    ++ (if p.note.isEmpty then [] else bytes "  // " ++ p.note) ++ bytes "\n"

/-- The report for readers. -/
def TimingReport.summary (r : TimingReport) : Text :=
  bytes "timings:\n" ++ r.phases.flatMap PhaseTiming.line ++ timingColumns (bytes "total") r.total
    ++ bytes "\n"

/-! ## Adding up -/

/-- The phases with one more added to the phase of its name; a new name comes last. -/
def addPhase (p : PhaseTiming) : List PhaseTiming → List PhaseTiming
  | [] => [{ p with duration := Double.zero.add p.duration, count := max p.count 1, note := [] }]
  | q :: qs =>
      if q.name = p.name then
        { q with duration := q.duration.add p.duration, count := q.count + max p.count 1 } :: qs
      else q :: addPhase p qs

/-- The sum of two reports; the second's phases are added one after the other. -/
def TimingReport.add (totals r : TimingReport) : TimingReport :=
  { total := totals.total.add r.total
    phases := r.phases.foldl (fun ps p => addPhase p ps) totals.phases }

/-! ## Timers -/

/-- A phase that was begun. -/
structure TimedPhase where
  /-- Its name. -/
  name : Text
  /-- When it began, in nanoseconds. -/
  began : Nat
  /-- How long it took, once it ended. -/
  nanos : Nat
  /-- A remark. -/
  note : Text
  deriving Repr, DecidableEq

/-- The phases begun so far. -/
structure Timer where
  /-- The phases in order. -/
  phases : List TimedPhase := []
  deriving Repr, DecidableEq

namespace Timer

/-- Begins a phase; its number is the number of phases before. -/
def start (t : Timer) (now : Nat) (name : Text) : Timer × Nat :=
  ({ phases := t.phases ++ [⟨name, now, 0, []⟩] }, t.phases.length)

/-- Ends the phase with a number. -/
def stop (t : Timer) (now : Nat) (i : Nat) (note : Text) : Timer :=
  { phases := t.phases.modify i fun p => { p with nanos := now - p.began, note := note } }

/-- Nanoseconds in milliseconds. -/
def millis (nanos : Nat) : Double := .ofRatio false nanos 1000000

/-- The times of the phases; nothing before the first. -/
def report (t : Timer) : TimingReport :=
  { total := millis (t.phases.foldl (fun n p => n + p.nanos) 0)
    phases := t.phases.map fun p => ⟨p.name, millis p.nanos, 1, p.note⟩ }

end Timer

end GrammarLayout
