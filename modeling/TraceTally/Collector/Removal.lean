import TraceTally.Collector.Basic

/-!
# Removing stored rows

A removal scans for the rows that its filter selects and removes them one by one, up to the first
failure. A filter without fields is refused, so that no call can empty the store.
-/

namespace TraceTally

variable {σ V : Type} [EventStore σ V]

/-- Removes the rows in order; the number counts those removed before. -/
def removeRows : List RowId → Nat → σ → Except Failure Nat × σ
  | [], removed, s => (.ok removed, s)
  | id :: rest, removed, s =>
    match EventStore.deleteRow id s with
    | (.error e, s) => (.error e, s)
    | (.ok (), s) => removeRows rest (removed + 1) s

def Filter.toRemoval (f : Filter) : Except Failure Predicate :=
  f.toPredicate.bind fun p =>
    if p.isEmpty then .error (.invalidFilter "delete requires at least one of trace_id, origin, event")
    else .ok p

/-- The number of rows removed; an error says nothing of the rows removed before it. -/
def removeEvents (today : Int) (f : Filter) (s : σ) : Except Failure Nat × σ :=
  match f.toRemoval with
  | .error e => (.error e, s)
  | .ok p =>
    match EventStore.scan today p s with
    | (.error e, s) => (.error e, s)
    | (.ok rows, s) => removeRows (rows.map ScannedRow.id) 0 s

/-- A removal that succeeds is counted and leaves a trace in the audit trail. -/
def Collector.delete (today : Int) (f : Filter) (c : Collector σ V) :
    Except Failure Nat × Collector σ V :=
  match removeEvents today f c.store with
  | (.error e, store) => (.error e, { c with store })
  | (.ok n, store) =>
    (.ok n, (({ c with store }).count fun m =>
      { m with deletedRows := m.deletedRows + n }).log (.eventsDeleted f n))

end TraceTally
