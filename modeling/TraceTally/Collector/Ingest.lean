import TraceTally.Collector.Flush

/-!
# Taking entries in

Writing an entry merges all its events, then flushes if the buffer holds more keys than its capacity
or, failing that, if the interval has passed. Inserting writes entry after entry and stops at the
first failure.
-/

namespace TraceTally

variable {σ V : Type}

namespace Collector

/-- Merges the events of an entry into the buffer. -/
def mergeEntry [Add V] (e : Entry V) (c : Collector σ V) : Collector σ V :=
  (c.setTotals (c.totals.mergeEntry e)).count fun m =>
    { m with eventsIngested := m.eventsIngested + e.events.length }

/-- The flush that a write has to start; growth past the capacity comes first. -/
def trigger? (now : Instant) (c : Collector σ V) : Option Trigger :=
  if c.policy.capacity < c.totals.size then some .size
  else if c.isDue now then some .interval
  else none

end Collector

variable [EventStore σ V] [Add V]

def Timed.write (e : Entry V) (s : Timed σ V) : Except Failure Unit × Timed σ V :=
  let s := { s with collector := s.collector.mergeEntry e }
  match s.collector.trigger? s.clock.now with
  | none => (.ok (), s)
  | some t =>
    let (r, s) := s.flush t
    (r.map fun _ => (), s)

/-- Does one thing after the other, up to the first failure. -/
def untilFailure {α S : Type} (act : α → S → Except Failure Unit × S) :
    List α → S → Except Failure Unit × S
  | [], s => (.ok (), s)
  | a :: rest, s =>
    match act a s with
    | (.error f, s) => (.error f, s)
    | (.ok (), s) => untilFailure act rest s

/-- What follows a failed write is not written; the call is counted by its outcome. -/
def Timed.insert (entries : List (Entry V)) (s : Timed σ V) : Except Failure Unit × Timed σ V :=
  let (r, s) := untilFailure Timed.write entries s
  (r, { s with collector := s.collector.count (·.countInsert (.of r)) })

end TraceTally
