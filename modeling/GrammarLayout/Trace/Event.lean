import GrammarLayout.Text.Json
import GrammarLayout.Trace.Level

/-!
# Traced events

An event tells that a span begins or ends, or that something happened, at a
moment.  Events are written as a line for readers or as a line of JSON.
-/

namespace GrammarLayout

open Text

/-! ## Moments -/

/-- A point in time and the zone in which it is shown. -/
structure Moment where
  /-- The seconds since 1970 began. -/
  seconds : Int
  /-- The nanoseconds on top. -/
  nanos : Nat
  /-- The zone's seconds east of Greenwich. -/
  offset : Int
  deriving Repr, DecidableEq, Inhabited

namespace Moment

/-- A moment from seconds and nanoseconds, which may be too many or negative. -/
def ofUnix (seconds nanos offset : Int) : Moment :=
  ⟨seconds + nanos / 1000000000, (nanos % 1000000000).toNat, offset⟩

/-- Seconds since 1970 began on the clocks of the zone. -/
def wallSeconds (m : Moment) : Int := m.seconds + m.offset

/-- A number with at least `n` digits. -/
def digits (n : Nat) (v : Nat) : Text := padStart n 0x30 (ofNat v)

/-- The time of day in seconds: hours, minutes and seconds divided by colons. -/
def clock (m : Moment) : Text :=
  let s := (m.wallSeconds % 86400).toNat
  digits 2 (s / 3600) ++ bytes ":" ++ digits 2 (s / 60 % 60) ++ bytes ":" ++ digits 2 (s % 60)

/-- Year, month and day of a day counted from the first of March of the year 0. -/
def civil (day : Int) : Int × Nat × Nat :=
  let era := day / 146097
  let doe := (day % 146097).toNat
  let yoe := (doe - doe / 1460 + doe / 36524 - doe / 146096) / 365
  let doy := doe - (365 * yoe + yoe / 4 - yoe / 100)
  let mp := (5 * doy + 2) / 153
  let month := if mp < 10 then mp + 3 else mp - 9
  let year : Int := era * 400 + yoe + (if month ≤ 2 then 1 else 0)
  (year, month, doy - (153 * mp + 2) / 5 + 1)

/-- The date in the zone: year, month and day divided by dashes. -/
def date (m : Moment) : Text :=
  let (year, month, day) := civil (m.wallSeconds / 86400 + 719468)
  (if year < 0 then [Ascii.minus] else []) ++ digits 4 year.natAbs ++ bytes "-" ++ digits 2 month
    ++ bytes "-" ++ digits 2 day

/-- The zone: a letter for Greenwich, else hours and minutes. -/
def zone (m : Moment) : Text :=
  if m.offset = 0 then bytes "Z"
  else
    let minutes := m.offset.tdiv 60
    (if minutes < 0 then bytes "-" else bytes "+") ++ digits 2 (minutes.natAbs / 60) ++ bytes ":"
      ++ digits 2 (minutes.natAbs % 60)

/-- The time of day to the millisecond; finer parts are cut. -/
def shortTime (m : Moment) : Text := m.clock ++ bytes "." ++ digits 3 (m.nanos / 1000000)

/-- Date, time to the microsecond and zone. -/
def timestamp (m : Moment) : Text :=
  m.date ++ bytes "T" ++ m.clock ++ bytes "." ++ digits 6 (m.nanos / 1000) ++ m.zone

end Moment

/-! ## Events -/

/-- What an event tells. -/
inductive EventKind where
  /-- A span begins. -/
  | start
  /-- A span ends. -/
  | finish
  /-- Something happened. -/
  | point
  /-- A number that stands for no known kind. -/
  | other
  deriving Repr, DecidableEq

namespace EventKind

/-- The kind with a number. -/
def ofNumber : Nat → EventKind
  | 1 => start
  | 2 => finish
  | 3 => point
  | _ => other

/-- The name of a kind. -/
def name : EventKind → Text
  | start => bytes "begin"
  | finish => bytes "end"
  | point => bytes "point"
  | other => bytes "unknown"

/-- The sign of a kind in lines for readers. -/
def sign : EventKind → Text
  | start => bytes "→ "
  | finish => bytes "← "
  | point => bytes "• "
  | other => []

end EventKind

/-- Something that was traced. -/
structure TraceEvent where
  /-- When it happened. -/
  time : Moment
  /-- Its place in the order of all events. -/
  seq : Nat
  /-- What it tells. -/
  kind : EventKind
  /-- The part of the run it belongs to. -/
  scope : Scope
  /-- The span it belongs to; 0 for none. -/
  span : Nat
  /-- The span around it; 0 for none. -/
  parent : Nat
  /-- The worker that traced it; 0 for none. -/
  worker : Nat
  /-- What it is called. -/
  name : Text
  /-- What more is to be said. -/
  detail : Text
  /-- Further facts by name. -/
  extra : List (Text × Text)
  deriving Repr, DecidableEq

/-- Facts in the order of their names. -/
def sortedFacts (facts : List (Text × Text)) : List (Text × Text) :=
  facts.mergeSort fun a b => notAfter a.1 b.1

namespace TraceEvent

/-- The event as a line for readers. -/
def toLine (e : TraceEvent) : Text :=
  let scope := e.scope.name
  let facts := (sortedFacts e.extra).map fun f => f.1 ++ bytes "=" ++ f.2
  e.time.shortTime ++ bytes " " ++ scope ++ List.replicate (6 - scope.length) Ascii.space
    ++ bytes " "
    ++ (if 0 < e.parent then bytes "  " else [])
    ++ e.kind.sign ++ e.name
    ++ (if e.detail.isEmpty then [] else bytes " (" ++ e.detail ++ bytes ")")
    ++ (if facts.isEmpty then [] else bytes " \x7b" ++ join (bytes ", ") facts ++ bytes "\x7d")
    ++ bytes "\n"

/-- The event as JSON; numbers and texts that are nothing are left out, except for the order and
the name. -/
def toJson (e : TraceEvent) : Json :=
  let number (key : String) (n : Nat) : List (Text × Json) :=
    if n = 0 then [] else [(bytes key, .ofInt n)]
  let facts := (sortedFacts e.extra).map fun f => (f.1, Json.string f.2)
  .object <|
    [ (bytes "time", .string e.time.timestamp), (bytes "seq", .ofInt e.seq),
      (bytes "kind", .string e.kind.name), (bytes "scope", .string e.scope.name) ]
    ++ number "span_id" e.span ++ number "parent_id" e.parent ++ number "gid" e.worker
    ++ [(bytes "name", .string e.name)]
    ++ (if e.detail.isEmpty then [] else [(bytes "detail", .string e.detail)])
    ++ (if facts.isEmpty then [] else [(bytes "extra", .object facts)])

/-- The event in a format. -/
def write (e : TraceEvent) : TraceFormat → Text
  | .ndjson => e.toJson.compact ++ bytes "\n"
  | _ => e.toLine

end TraceEvent

end GrammarLayout
