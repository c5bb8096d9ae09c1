import TraceTally.Store.Basic

/-!
# The store in memory

Rows in the order in which they were written. A write drops what has expired and what it replaces,
then appends; expiry is checked again by every scan. Identifiers come from a given source, one
after the other, and no operation fails.
-/

namespace TraceTally

structure MemoryStore (V : Type) where
  rows : List (Record V) := []
  /-- The `n`-th identifier. -/
  source : Nat → RowId := id
  /-- How many identifiers have been handed out. -/
  minted : Nat := 0

namespace MemoryStore

variable {V : Type}

def mint (s : MemoryStore V) : RowId × MemoryStore V :=
  (s.source s.minted, { s with minted := s.minted + 1 })

def write (now : Int) (records : List (Record V)) (s : MemoryStore V) : MemoryStore V :=
  let kept := s.rows.filter fun r => r.isLive now && !(records.any fun new => new.id = r.id)
  { s with rows := kept ++ records }

def select (now : Int) (p : Predicate) (s : MemoryStore V) : List (ScannedRow V) :=
  (s.rows.filter fun r => r.isLive now && p.holds r.row).map Record.scanned

def erase (id : RowId) (s : MemoryStore V) : MemoryStore V :=
  { s with rows := s.rows.filter fun r => r.id ≠ id }

instance : EventStore (MemoryStore V) V where
  name := "in-memory"
  newRowId s := (.ok s.mint.1, s.mint.2)
  writeBatch now records s := (.ok (), s.write now records)
  scan now p s := (.ok (s.select now p), s)
  deleteRow id s := (.ok (), s.erase id)
  ping s := (.ok (), s)

end MemoryStore

end TraceTally
