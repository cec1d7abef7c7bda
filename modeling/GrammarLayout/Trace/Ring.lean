import GrammarLayout.Trace.Event

/-!
# The latest events

A ring holds the latest events up to its capacity.  Its slots are there from the
start; `head` is the one that the next event goes to, and it comes round to the
first slot again behind the last.  Once it has done so the ring is full and
stays so, and `head` points at the oldest event.  `Ring.toList` gives the events
from the oldest to the latest.
-/

namespace GrammarLayout

/-- What a slot holds before an event is put into it. -/
def TraceEvent.vacant : TraceEvent :=
  { time := default, seq := 0, kind := .other, scope := .other 0, span := 0, parent := 0,
    worker := 0, name := [], detail := [], extra := [] }

/-- The latest events, up to a capacity. -/
structure Ring where
  /-- The slots. -/
  slots : List TraceEvent
  /-- The number of slots. -/
  capacity : Nat
  /-- The slot that the next event goes to. -/
  head : Nat := 0
  /-- Whether every slot has been filled. -/
  full : Bool := false
  deriving Repr, DecidableEq

namespace Ring

/-- The capacity when none is asked for. -/
def defaultCapacity : Nat := 4096

/-- A ring with a capacity and no events. -/
def empty (capacity : Nat) : Ring :=
  { slots := List.replicate capacity .vacant, capacity := capacity }

/-- A ring without events; a capacity that is not positive means the default. -/
def ofCapacity (n : Int) : Ring := empty (if n ≤ 0 then defaultCapacity else n.toNat)

/-- The ring with one more event. -/
def push (r : Ring) (e : TraceEvent) : Ring :=
  let next := (r.head + 1) % r.capacity
  { r with slots := r.slots.set r.head e, head := next, full := r.full || next == 0 }

/-- The ring with every event changed in place. -/
def map (f : TraceEvent → TraceEvent) (r : Ring) : Ring := { r with slots := r.slots.map f }

/-- The events from the oldest to the latest. -/
def toList (r : Ring) : List TraceEvent :=
  if r.full then r.slots.drop r.head ++ r.slots.take r.head else r.slots.take r.head

/-- The events in a format, from the oldest to the latest. -/
def dump (r : Ring) (f : TraceFormat) : Text := r.toList.flatMap fun e => e.write f

end Ring

end GrammarLayout
