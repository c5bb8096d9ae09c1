import TraceTally.Collector.Basic

/-!
# Asking for totals

A query sums the stored rows that its filter selects, under keys whose origin and trace come from
the filter, so that rows of one name and unit fold into one event. What is still buffered does not
count.
-/

namespace TraceTally

variable {σ V : Type} [EventStore σ V] [Add V]

/-- The key under which a query sums a row. -/
def Filter.keyOf (f : Filter) (row : ScannedRow V) : Key :=
  ⟨f.origin.getD "", f.traceId.getD "", row.key.name, row.key.unit⟩

def Filter.aggregate (f : Filter) (rows : List (ScannedRow V)) : Totals V :=
  Totals.empty.mergeAll (rows.map fun row => (f.keyOf row, row.value))

/-- The totals of the live rows that the filter selects, by name and unit. -/
def query (today : Int) (f : Filter) (s : σ) : Except Failure (List (Event V)) × σ :=
  match f.toPredicate with
  | .error e => (.error e, s)
  | .ok p =>
    match EventStore.scan today p s with
    | (.error e, s) => (.error e, s)
    | (.ok rows, s) => (.ok (f.aggregate rows).events, s)

/-- A query on the collector's store, counted by its outcome. -/
def Collector.query (today : Int) (f : Filter) (c : Collector σ V) :
    Except Failure (List (Event V)) × Collector σ V :=
  let (r, store) := TraceTally.query today f c.store
  (r, ({ c with store }).count (·.countQuery (.of r)))

end TraceTally
