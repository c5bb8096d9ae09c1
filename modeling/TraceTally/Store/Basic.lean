import TraceTally.Filter.Predicate
import TraceTally.Key
import TraceTally.Duration

/-!
# Durable records

A flush writes one record per key. A store keeps one row per identifier: a record that is written
again replaces its row. What the collector asks of a store is a class of operations on the store's
state, each of which may fail and always leaves a state; times are wall-clock milliseconds.
-/

namespace TraceTally

/-- Identifiers are 128-bit numbers. -/
abbrev RowId := Nat

structure Record (V : Type) where
  id : RowId
  key : Key
  value : V
  created : Int
  expires : Int
  deriving DecidableEq, Repr

/-- What a scan returns of a record. -/
structure ScannedRow (V : Type) where
  id : RowId
  key : Key
  value : V
  deriving DecidableEq, Repr

namespace Record

variable {V : Type}

def row (r : Record V) : Row := ⟨r.key.traceId, r.key.origin, r.key.name⟩

def scanned (r : Record V) : ScannedRow V := ⟨r.id, r.key, r.value⟩

/-- A record is visible strictly before its expiry. -/
def isLive (now : Int) (r : Record V) : Bool := now < r.expires

end Record

class EventStore (σ : Type) (V : outParam Type) where
  name : String
  newRowId : σ → Except Failure RowId × σ
  /-- All records as one request, which need not be atomic. -/
  writeBatch (now : Int) (records : List (Record V)) : σ → Except Failure Unit × σ
  /-- The live rows that the predicate selects, in the store's order. -/
  scan (now : Int) (p : Predicate) : σ → Except Failure (List (ScannedRow V)) × σ
  /-- Removing a row that is not there is no error. -/
  deleteRow (id : RowId) : σ → Except Failure Unit × σ
  ping : σ → Except Failure Unit × σ

end TraceTally
