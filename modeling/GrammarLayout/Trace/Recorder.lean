import GrammarLayout.Trace.Ring

/-!
# Recording a trace

A recorder numbers events and spans and passes the events of its level on to
where they are kept.  Spans are values: beginning one gives the recorder after
the event and the span, and a span of a scope that is not traced is inactive,
so that nothing is recorded for it later either.
-/

namespace GrammarLayout

open Text

/-! ## Where events are kept -/

/-- Text that is being written, part of which may wait for a flush. -/
structure Output where
  /-- What has been written. -/
  written : Text := []
  /-- What waits. -/
  pending : Text := []
  /-- How much may wait; nothing does when this is 0. -/
  room : Nat := 0
  deriving Repr, DecidableEq

namespace Output

/-- Writes out what waits. -/
def flush (o : Output) : Output := { o with written := o.written ++ o.pending, pending := [] }

/-- Adds text: what fits waits; when it does not fit, the waiting part is filled up and written. -/
def add (o : Output) (t : Text) : Output :=
  if t.length ≤ o.room - o.pending.length then { o with pending := o.pending ++ t }
  else if o.pending.isEmpty then { o with written := o.written ++ t }
  else
    let free := o.room - o.pending.length
    let filled := { o with pending := o.pending ++ t.take free }.flush
    let rest := t.drop free
    if rest.length ≤ o.room then { filled with pending := rest }
    else { filled with written := filled.written ++ rest }

end Output

/-- Where events go. -/
inductive Sink where
  /-- Nowhere. -/
  | nowhere
  /-- Into an output, at once. -/
  | stream (level : TraceLevel) (format : TraceFormat) (output : Output)
  /-- Into memory. -/
  | ring (level : TraceLevel) (ring : Ring)
  deriving Repr, DecidableEq

namespace Sink

/-- The level of a sink. -/
def level : Sink → TraceLevel
  | nowhere => .off
  | stream l _ _ => l
  | ring l _ => l

/-- The text that reached the output. -/
def written : Sink → Text
  | stream _ _ o => o.written
  | _ => []

/-- The events that are held in memory. -/
def events? : Sink → Option (List TraceEvent)
  | ring _ r => some r.toList
  | _ => none

/-- The sink with the events that it holds in memory changed. -/
def mapHeld (f : TraceEvent → TraceEvent) : Sink → Sink
  | ring l r => ring l (r.map f)
  | s => s

/-- The sink with everything written out. -/
def flush : Sink → Sink
  | stream l f o => stream l f o.flush
  | s => s

end Sink

/-! ## The recorder -/

/-- The state of a trace. -/
structure Recorder where
  /-- Where events go. -/
  sink : Sink := .nowhere
  /-- The number of the latest event. -/
  seq : Nat := 0
  /-- The number of the latest span. -/
  spans : Nat := 0
  /-- The time that events are given. -/
  now : Moment := default
  /-- The worker that events are given. -/
  worker : Nat := 0
  deriving Repr, DecidableEq

/-- A span that was begun. -/
structure Span where
  /-- Its number; 0 when it is inactive. -/
  id : Nat
  /-- The span around it. -/
  parent : Nat
  /-- Its scope. -/
  scope : Scope
  /-- Its name. -/
  name : Text
  /-- Facts that its end will tell. -/
  extra : List (Text × Text)
  deriving Repr, DecidableEq

namespace Span

/-- A span for which nothing is recorded. -/
def inactive : Span := ⟨0, 0, .other 0, [], []⟩

/-- Is the span recorded? -/
def isActive (s : Span) : Bool := s.id ≠ 0

/-- The facts with one set. -/
def setFact (key value : Text) : List (Text × Text) → List (Text × Text)
  | [] => [(key, value)]
  | (k, v) :: rest => if k = key then (k, value) :: rest else (k, v) :: setFact key value rest

/-- The span with a further fact. -/
def withExtra (s : Span) (key value : Text) : Span :=
  if s.isActive then { s with extra := setFact key value s.extra } else s

end Span

namespace Recorder

/-- Is anything recorded? -/
def enabled (r : Recorder) : Bool := r.sink.level.enabled

/-- Are events of a scope recorded? -/
def records (r : Recorder) (scope : Scope) : Bool := r.enabled && r.sink.level.keeps scope

/-- Passes an event on to the sink.  Memory gives an event a new number of its own. -/
def emit (r : Recorder) (e : TraceEvent) : Recorder :=
  match r.sink with
  | .nowhere => r
  | .stream l f o =>
      if l.keeps e.scope then { r with sink := .stream l f (o.add (e.write f)) } else r
  | .ring l ring =>
      if l.keeps e.scope then
        { r with seq := r.seq + 1, sink := .ring l (ring.push { e with seq := r.seq + 1 }) }
      else r

/-- Emits an event with the next number. -/
def emitNext (r : Recorder) (kind : EventKind) (scope : Scope) (span parent : Nat)
    (name detail : Text) (extra : List (Text × Text)) : Recorder :=
  let r := { r with seq := r.seq + 1 }
  r.emit
    { time := r.now, seq := r.seq, kind := kind, scope := scope, span := span, parent := parent,
      worker := r.worker, name := name, detail := detail, extra := extra }

/-- Records that something happened. -/
def point (r : Recorder) (scope : Scope) (name detail : Text) (parent : Nat) : Recorder :=
  if r.records scope then r.emitNext .point scope 0 parent name detail [] else r

/-- Begins a span below another one. -/
def startSpan (r : Recorder) (scope : Scope) (name : Text) (parent : Nat) : Recorder × Span :=
  if r.records scope then
    let id := r.spans + 1
    let r := { r with spans := id }.emitNext .start scope id parent name [] []
    (r, ⟨id, parent, scope, name, []⟩)
  else (r, .inactive)

/-- Records a failure within a span. -/
def failSpan (r : Recorder) (s : Span) (message : Text) : Recorder :=
  if s.isActive then r.point .error s.name message s.id else r

/-- Ends a span. -/
def endSpan (r : Recorder) (s : Span) (detail : Text) : Recorder :=
  if s.isActive then r.emitNext .finish s.scope s.id s.parent s.name detail s.extra else r

/-- The end of a span with a further fact, if it tells facts of the span. -/
def tellFact (s : Span) (key value : Text) (e : TraceEvent) : TraceEvent :=
  if e.kind = .finish ∧ e.span = s.id ∧ e.extra ≠ [] then
    { e with extra := Span.setFact key value e.extra }
  else e

/-- Gives a span a further fact.  The facts of a span are one with those of its ends: an end that is
held in memory tells the new one too. -/
def addFact (r : Recorder) (s : Span) (key value : Text) : Recorder × Span :=
  if s.isActive then
    ({ r with sink := r.sink.mapHeld (tellFact s key value) }, s.withExtra key value)
  else (r, s)

/-- The span that is current below `current` once `s` was begun: `s`, if it is recorded. -/
def currentSpan (current : Nat) (s : Span) : Nat := if s.isActive then s.id else current

end Recorder

end GrammarLayout
