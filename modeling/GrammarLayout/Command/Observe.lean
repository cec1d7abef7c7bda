import GrammarLayout.Command.Arguments
import GrammarLayout.Disk.Basic
import GrammarLayout.Trace.Recorder

/-!
# Traces and profiles of a command

The flags of the tool can ask for a trace and for profiles.  They are opened
before a command runs and closed after it, whatever became of it.
-/

namespace GrammarLayout

open Ascii Text

/-! ## Traces -/

/-- What kind of trace is wanted. -/
structure TraceOptions where
  /-- What is traced. -/
  level : TraceLevel := .off
  /-- Where events go. -/
  mode : TraceMode := .stream
  /-- How they are written. -/
  format : TraceFormat := .auto
  /-- The file they are written to; the error output when empty or a dash. -/
  path : Text := []
  /-- How many events are held in memory. -/
  capacity : Int := 0
  deriving Repr, DecidableEq

namespace TraceOptions

/-- Does the trace go to the error output? -/
def toErrors (o : TraceOptions) : Bool := o.path.isEmpty || o.path = [minus]

/-- Opens a trace; its file is emptied. -/
def begin (o : TraceOptions) (d : Disk) : Except Failure (Disk × Sink) :=
  if o.level = .off then .ok (d, .nowhere)
  else
    match o.mode with
    | .stream =>
        let sink := Sink.stream o.level (o.format.resolve o.path) {}
        if o.toErrors then .ok (d, sink)
        else
          match d.write o.path [] with
          | .ok d => .ok (d, sink)
          | .error e => .error (.within (bytes "failed to open trace output") e.failure)
    | .ring => .ok (d, .ring o.level (.ofCapacity o.capacity))
    | .other => .error (.plain (bytes "unknown storage mode: " ++ o.mode.name))

/-- Puts what a sink wrote at once into the file of the trace. -/
def save (o : TraceOptions) (d : Disk) (s : Sink) : Disk :=
  match s with
  | .stream _ _ out => if o.toErrors then d else (d.write o.path out.flush.written).toOption.getD d
  | _ => d

/-- Closes a trace: events held in memory are written.  The text belongs to the error output. -/
def close (o : TraceOptions) (d : Disk) (s : Sink) : Disk × Text :=
  match s with
  | .ring _ ring =>
      let events := ring.dump (o.format.resolve o.path)
      if o.toErrors then (d, events)
      else
        match d.write o.path events with
        | .ok d => (d, [])
        | .error e => (d, bytes "trace: dump error: " ++ e.message ++ bytes "\n")
  | s => (o.save d s, [])

/-- The trace that the flags of a command ask for.  A file without a level means phases. -/
def ofFlags (g : GivenFlags) : Except Failure TraceOptions := do
  let path := g.word (bytes "trace") []
  let format ← (TraceFormat.parse (g.word (bytes "trace-format") (bytes "auto"))).mapError .plain
  let level ← (TraceLevel.parse (g.word (bytes "trace-level") (bytes "off"))).mapError fun m =>
    .within (bytes "invalid trace level") (.plain m)
  let level := if level = .off && !path.isEmpty then .phase else level
  if level = .off then return {}
  let mode ← (TraceMode.parse (g.word (bytes "trace-mode") (bytes "stream"))).mapError fun m =>
    .within (bytes "invalid trace mode") (.plain m)
  return { level, mode, format, path, capacity := g.number (bytes "trace-ring-size") 4096 }

end TraceOptions

/-! ## Profiles -/

/-- The files that profiles are written to; empty paths mean none. -/
structure ProfileOptions where
  /-- The time spent. -/
  cpu : Text := []
  /-- The memory in use, at the end. -/
  memory : Text := []
  /-- The schedule. -/
  schedule : Text := []
  deriving Repr, DecidableEq

namespace ProfileOptions

/-- The profiles that the flags of a command ask for. -/
def ofFlags (g : GivenFlags) : ProfileOptions :=
  { cpu := g.word (bytes "cpu-profile") [], memory := g.word (bytes "mem-profile") [],
    schedule := g.word (bytes "runtime-trace") [] }

/-- The disk with an empty file at a path, if there is one. -/
def touch (d : Disk) (path : Text) : Except DiskError Disk :=
  if path.isEmpty then .ok d else d.write path []

/-- Opens the profiles that are written from the beginning; the disk is given in any case. -/
def begin (o : ProfileOptions) (d : Disk) : Disk × Option Failure :=
  let failed (e : DiskError) : Option Failure :=
    some (.within (bytes "failed to start profiling") e.failure)
  match touch d o.cpu with
  | .error e => (d, failed e)
  | .ok d =>
      match touch d o.schedule with
      | .error e => (d, failed e)
      | .ok d => (d, none)

/-- Closes the profiles and writes the one of the memory.  The text belongs to the error output. -/
def close (o : ProfileOptions) (d : Disk) : Disk × Text :=
  match touch d o.memory with
  | .ok d => (d, [])
  | .error e => (d, bytes "profile: " ++ e.message ++ bytes "\n")

end ProfileOptions

end GrammarLayout
