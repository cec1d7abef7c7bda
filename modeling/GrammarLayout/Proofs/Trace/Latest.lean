import GrammarLayout.Trace.Recorder
import Mathlib.Data.List.Forall2

/-!
# The latest events

Events that are traced into memory go to the slots of a ring, each with a number
of its own.  The ring forgets the oldest event for each one it has no slot for,
so what it holds is always the end of what it was given, however often its slots
were filled anew.  Where the next event goes and whether all slots were filled
is all that it takes to say so: a ring that is not full has been filled up to
its head.

What is proved here:

* `Ring.Sound.full_iff` — when a ring is full;
* `Ring.Sound.toList_push_of_room`, `Ring.Sound.toList_push_of_full` — one event;
* `Ring.Sound.toList_foldl_push` — a ring holds the latest of the events it was given;
* `Recorder.Stored.step`, `Recorder.Stored.run` — one event and a run of events handed
  to a recorder that stores them in memory;
* `Recorder.events_latest` — what memory holds after a run.
-/

namespace GrammarLayout

/-! ## What a ring holds -/

/-- The last `n` elements of a list, or all when there are fewer. -/
def latest {α : Type} (n : Nat) (l : List α) : List α := l.drop (l.length - n)

theorem latest_of_length_le {α : Type} {n : Nat} {l : List α} (h : l.length ≤ n) :
    latest n l = l := by
  rw [latest, Nat.sub_eq_zero_of_le h, List.drop_zero]

theorem latest_latest_append {α : Type} (n : Nat) (l m : List α) :
    latest n (latest n l ++ m) = latest n (l ++ m) := by
  simp only [latest, List.drop_append, List.drop_drop, List.length_append, List.length_drop]
  congr 2 <;> omega

namespace Ring

/-- The ring has its slots, and the next event goes to one of them. -/
structure Sound (r : Ring) : Prop where
  /-- There are as many slots as the capacity says. -/
  slots : r.slots.length = r.capacity
  /-- The next slot is one of them. -/
  head_lt : r.head < r.capacity

theorem sound_ofCapacity (n : Int) : (ofCapacity n).Sound := by
  refine ⟨List.length_replicate, ?_⟩
  show 0 < if n ≤ 0 then defaultCapacity else n.toNat
  rw [defaultCapacity]
  split <;> omega

theorem toList_ofCapacity (n : Int) : (ofCapacity n).toList = [] := rfl

namespace Sound

variable {r : Ring} (h : r.Sound)
include h

theorem push (e : TraceEvent) : (r.push e).Sound := by
  refine ⟨?_, Nat.mod_lt _ (Nat.lt_of_le_of_lt (Nat.zero_le _) h.head_lt)⟩
  rw [Ring.push, List.length_set]
  exact h.slots

theorem head_lt_length : r.head < r.slots.length := by
  rw [h.slots]
  exact h.head_lt

theorem length_take_head : (r.slots.take r.head).length = r.head :=
  List.length_take_of_le (Nat.le_of_lt h.head_lt_length)

theorem length_toList : r.toList.length = if r.full then r.capacity else r.head := by
  have hhead := h.head_lt
  unfold toList
  split
  · rw [List.length_append, List.length_drop, h.length_take_head, h.slots]
    omega
  · exact h.length_take_head

theorem length_toList_le : r.toList.length ≤ r.capacity := by
  have hhead := h.head_lt
  rw [h.length_toList]
  split <;> omega

/-- The ring is full exactly when it holds as many events as it has slots. -/
theorem full_iff : r.full = true ↔ r.toList.length = r.capacity := by
  rw [h.length_toList]
  split
  · rename_i hfull
    exact iff_of_true hfull rfl
  · rename_i hopen
    exact iff_of_false hopen (Nat.ne_of_lt h.head_lt)

/-- The slots around the next one, once an event was put into it. -/
theorem slots_push (e : TraceEvent) :
    (r.push e).slots = r.slots.take r.head ++ e :: r.slots.drop (r.head + 1) :=
  List.set_eq_take_append_cons_drop.trans (if_pos h.head_lt_length)

theorem drop_last (hlast : r.capacity ≤ r.head + 1) : r.slots.drop (r.head + 1) = [] :=
  List.drop_eq_nil_of_le (by rw [h.slots]; exact hlast)

/-- Behind the last slot the first one is next, and all are filled. -/
theorem push_last (hlast : r.capacity ≤ r.head + 1) (e : TraceEvent) :
    (r.push e).head = 0 ∧ (r.push e).full = true ∧
      (r.push e).slots = r.slots.take r.head ++ [e] := by
  have hcapacity : r.head + 1 = r.capacity := Nat.le_antisymm h.head_lt hlast
  refine ⟨?_, ?_, by rw [h.slots_push, h.drop_last hlast]⟩
  · rw [Ring.push, hcapacity, Nat.mod_self]
  · rw [Ring.push, hcapacity, Nat.mod_self]
    exact Bool.or_true _

/-- In front of the last slot the one behind it is next. -/
theorem push_more (hmore : r.head + 1 < r.capacity) (e : TraceEvent) :
    (r.push e).head = r.head + 1 ∧ (r.push e).full = r.full ∧
      (r.push e).slots.take (r.head + 1) = r.slots.take r.head ++ [e] ∧
      (r.push e).slots.drop (r.head + 1) = r.slots.drop (r.head + 1) := by
  have hlen : (r.slots.take r.head ++ [e]).length = r.head + 1 := by
    rw [List.length_append, h.length_take_head, List.length_singleton]
  rw [h.slots_push, List.append_cons]
  refine ⟨Nat.mod_eq_of_lt hmore, ?_, List.take_left' hlen, List.drop_left' hlen⟩
  rw [Ring.push, Nat.mod_eq_of_lt hmore]
  exact Bool.or_false _

/-- Until all slots are filled, no event is given up. -/
theorem toList_push_of_room (hroom : r.full = false) (e : TraceEvent) :
    (r.push e).toList = r.toList ++ [e] := by
  have hheld : r.toList = r.slots.take r.head := by simp [toList, hroom]
  rw [hheld]
  rcases Nat.lt_or_ge (r.head + 1) r.capacity with hmore | hlast
  · obtain ⟨hhead, hopen, htake, -⟩ := h.push_more hmore e
    rw [toList, hopen, hroom, hhead, htake]
    rfl
  · obtain ⟨hhead, hfull, hslots⟩ := h.push_last hlast e
    rw [toList, if_pos hfull, hhead, hslots, List.drop_zero, List.take_zero, List.append_nil]

/-- Once they are filled, an event takes the place of the oldest. -/
theorem toList_push_of_full (hfull : r.full = true) (e : TraceEvent) :
    (r.push e).toList = r.toList.drop 1 ++ [e] := by
  have hheld : r.toList.drop 1 = r.slots.drop (r.head + 1) ++ r.slots.take r.head := by
    rw [toList, if_pos hfull, List.drop_eq_getElem_cons h.head_lt_length, List.cons_append,
      List.drop_succ_cons, List.drop_zero]
  rw [hheld, List.append_assoc]
  rcases Nat.lt_or_ge (r.head + 1) r.capacity with hmore | hlast
  · obtain ⟨hhead, hstays, htake, hdrop⟩ := h.push_more hmore e
    rw [toList, if_pos (hstays.trans hfull), hhead, htake, hdrop]
  · obtain ⟨hhead, hstays, hslots⟩ := h.push_last hlast e
    rw [toList, if_pos hstays, hhead, hslots, h.drop_last hlast, List.drop_zero, List.take_zero,
      List.append_nil, List.nil_append]

/-- A new event comes last, in a full ring instead of the oldest. -/
theorem toList_push (e : TraceEvent) :
    (r.push e).toList = latest r.capacity (r.toList ++ [e]) := by
  have hlen := h.length_toList
  have hhead := h.head_lt
  cases hfull : r.full with
  | false =>
    rw [hfull, if_neg Bool.false_ne_true] at hlen
    rw [h.toList_push_of_room hfull, latest_of_length_le]
    rw [List.length_append, hlen, List.length_singleton]
    omega
  | true =>
    rw [hfull, if_pos rfl] at hlen
    rw [h.toList_push_of_full hfull, latest, List.length_append, hlen, List.length_singleton,
      Nat.add_sub_cancel_left, List.drop_append_of_le_length (by omega)]

/-- A ring that was given events holds the latest of those it held and those it was given. -/
theorem toList_foldl_push (es : List TraceEvent) :
    (es.foldl Ring.push r).toList = latest r.capacity (r.toList ++ es) := by
  induction es generalizing r with
  | nil => rw [List.foldl_nil, List.append_nil, latest_of_length_le h.length_toList_le]
  | cons e es ih =>
    have hcapacity : (r.push e).capacity = r.capacity := rfl
    rw [List.foldl_cons, ih (h.push e), h.toList_push, hcapacity, latest_latest_append,
      List.append_assoc, List.singleton_append]

end Sound

end Ring

/-! ## Events with numbers -/

/-- The event is another one with a number of its own. -/
def TraceEvent.Numbers (stored e : TraceEvent) : Prop := stored = { e with seq := stored.seq }

/-- The events whose scope the level keeps. -/
def TraceLevel.kept (l : TraceLevel) (es : List TraceEvent) : List TraceEvent :=
  es.filter fun e => l.keeps e.scope

namespace Recorder

/-- Hands an event to the recorder after some numbers were taken elsewhere. -/
def emitAfter (r : Recorder) (call : Nat × TraceEvent) : Recorder :=
  { r with seq := r.seq + call.1 }.emit call.2

/-- The recorder has put the events `stored` into its memory, in this order, with numbers that
increase up to its own. -/
structure Stored (r : Recorder) (level : TraceLevel) (ring : Ring) (stored : List TraceEvent) :
    Prop where
  /-- The memory was given these events. -/
  sink : r.sink = .ring level (stored.foldl Ring.push ring)
  /-- The numbers increase. -/
  increasing : stored.Pairwise fun a b => a.seq < b.seq
  /-- The latest number of all is the recorder's. -/
  numbered : ∀ e ∈ stored, e.seq ≤ r.seq

namespace Stored

variable {r : Recorder} {level : TraceLevel} {ring : Ring} {stored : List TraceEvent}

/-- An event that the level keeps is put into memory behind the others; no other event is. -/
theorem step (h : r.Stored level ring stored) (call : Nat × TraceEvent) :
    ∃ new, (r.emitAfter call).Stored level ring (stored ++ new) ∧
      List.Forall₂ TraceEvent.Numbers new (level.kept [call.2]) := by
  obtain ⟨taken, e⟩ := call
  by_cases hkeeps : level.keeps e.scope = true
  · refine ⟨[{ e with seq := r.seq + taken + 1 }], ⟨?_, ?_, ?_⟩, ?_⟩
    · simp only [emitAfter, emit, h.sink, hkeeps, if_true, List.foldl_append, List.foldl_cons,
        List.foldl_nil]
    · refine List.pairwise_append.2 ⟨h.increasing, List.pairwise_singleton _ _, ?_⟩
      intro a ha b hb
      obtain rfl := List.mem_singleton.1 hb
      have hle := h.numbered a ha
      show a.seq < r.seq + taken + 1
      omega
    · have hseq : (r.emitAfter (taken, e)).seq = r.seq + taken + 1 := by
        simp only [emitAfter, emit, h.sink, hkeeps, if_true]
      intro a ha
      rw [hseq]
      rcases List.mem_append.1 ha with ha | ha
      · have hle := h.numbered a ha
        omega
      · obtain rfl := List.mem_singleton.1 ha
        exact Nat.le_refl _
    · have hkept : level.kept [e] = [e] := List.filter_cons_of_pos hkeeps
      rw [hkept]
      exact .cons rfl .nil
  · have hsame : r.emitAfter (taken, e) = { r with seq := r.seq + taken } := by
      simp only [emitAfter, emit, h.sink, hkeeps, if_false, Bool.false_eq_true]
    have hkept : level.kept [e] = [] := List.filter_cons_of_neg hkeeps
    refine ⟨[], ?_, ?_⟩
    · rw [hsame, List.append_nil]
      exact ⟨h.sink, h.increasing, fun a ha => Nat.le_add_right_of_le (h.numbered a ha)⟩
    · rw [hkept]
      exact .nil

/-- Of a run of events, those that the level keeps are put into memory in their order. -/
theorem run (h : r.Stored level ring stored) (calls : List (Nat × TraceEvent)) :
    ∃ new, (calls.foldl emitAfter r).Stored level ring (stored ++ new) ∧
      List.Forall₂ TraceEvent.Numbers new (level.kept (calls.map Prod.snd)) := by
  induction calls generalizing r stored with
  | nil => exact ⟨[], by rwa [List.append_nil], .nil⟩
  | cons call calls ih =>
    obtain ⟨first, hfirst, hnumbers⟩ := h.step call
    obtain ⟨rest, hrest, hnumbers'⟩ := ih hfirst
    refine ⟨first ++ rest, ?_, ?_⟩
    · rw [List.foldl_cons, ← List.append_assoc]
      exact hrest
    · have hkept : level.kept ((call :: calls).map Prod.snd)
          = level.kept [call.2] ++ level.kept (calls.map Prod.snd) :=
        List.filter_append [call.2] (calls.map Prod.snd)
      rw [hkept]
      exact List.rel_append hnumbers hnumbers'

end Stored

/-- Memory that was empty holds, after a run of events, the latest of those that the level keeps,
as many as it has slots for, in their order and with numbers that increase; nothing but the
numbers is changed.  Without a capacity there are 4096 slots. -/
theorem events_latest (r : Recorder) (level : TraceLevel) (capacity : Int)
    (calls : List (Nat × TraceEvent)) :
    ∃ held,
      (calls.foldl emitAfter { r with sink := .ring level (.ofCapacity capacity) }).sink.events?
        = some held ∧
      held.length = min (level.kept (calls.map Prod.snd)).length
        (if capacity ≤ 0 then 4096 else capacity.toNat) ∧
      List.Forall₂ TraceEvent.Numbers held
        (latest (if capacity ≤ 0 then 4096 else capacity.toNat)
          (level.kept (calls.map Prod.snd))) ∧
      held.Pairwise fun a b => a.seq < b.seq := by
  have hempty : Stored { r with sink := .ring level (.ofCapacity capacity) } level
      (.ofCapacity capacity) [] := ⟨rfl, .nil, by simp⟩
  obtain ⟨stored, hstored, hnumbers⟩ := hempty.run calls
  rw [List.nil_append] at hstored
  have hheld := (Ring.sound_ofCapacity capacity).toList_foldl_push stored
  have hcapacity : (Ring.ofCapacity capacity).capacity
      = if capacity ≤ 0 then 4096 else capacity.toNat := rfl
  rw [Ring.toList_ofCapacity, List.nil_append, hcapacity] at hheld
  refine ⟨latest (if capacity ≤ 0 then 4096 else capacity.toNat) stored, ?_, ?_, ?_, ?_⟩
  · rw [hstored.sink, Sink.events?, hheld]
  · rw [← hnumbers.length_eq, latest, List.length_drop]
    omega
  · rw [latest, latest, hnumbers.length_eq]
    exact List.forall₂_drop _ hnumbers
  · exact hstored.increasing.sublist (List.drop_sublist _ _)

end Recorder

end GrammarLayout
