import TraceTally.Key

/-!
# Running totals

A finite map from keys to values in which merging adds. Keys keep the order of their first
contribution, and each occurs once; what must not depend on that order takes the list of pairs.
-/

namespace TraceTally

variable {V : Type} [Add V]

/-- Adds to the value of the key, or appends the pair if the key is new. -/
def mergePair (k : Key) (v : V) : List (Key × V) → List (Key × V)
  | [] => [(k, v)]
  | (k', v') :: rest => if k' = k then (k', v' + v) :: rest else (k', v') :: mergePair k v rest

theorem keys_mergePair (k : Key) (v : V) (l : List (Key × V)) :
    (mergePair k v l).map Prod.fst =
      if k ∈ l.map Prod.fst then l.map Prod.fst else l.map Prod.fst ++ [k] := by
  induction l with
  | nil => simp [mergePair]
  | cons p rest ih =>
    obtain ⟨k', v'⟩ := p
    by_cases h : k' = k
    · simp [mergePair, h]
    · have h' : ¬ k = k' := fun e => h e.symm
      simp only [mergePair, h, if_false, List.map_cons, ih, List.mem_cons, h', false_or]
      split <;> simp

theorem nodup_keys_mergePair (k : Key) (v : V) {l : List (Key × V)}
    (h : (l.map Prod.fst).Nodup) : ((mergePair k v l).map Prod.fst).Nodup := by
  rw [keys_mergePair]
  split
  · exact h
  · rename_i hk
    refine List.nodup_append.mpr ⟨h, by simp, ?_⟩
    rintro a ha b hb rfl
    exact hk (List.mem_singleton.mp hb ▸ ha)

structure Totals (V : Type) where
  entries : List (Key × V)
  nodup : (entries.map Prod.fst).Nodup

namespace Totals

def empty : Totals V := ⟨[], by simp⟩

instance : Inhabited (Totals V) := ⟨empty⟩

def merge (t : Totals V) (k : Key) (v : V) : Totals V :=
  ⟨mergePair k v t.entries, nodup_keys_mergePair k v t.nodup⟩

def mergeAll (t : Totals V) (pairs : List (Key × V)) : Totals V :=
  pairs.foldl (fun t p => t.merge p.1 p.2) t

def mergeEntry (t : Totals V) (e : Entry V) : Totals V :=
  t.mergeAll (e.events.map fun event => (Key.ofEvent e event, event.value))

/-- Folds other totals into these. -/
def absorb (t u : Totals V) : Totals V := t.mergeAll u.entries

def get? (t : Totals V) (k : Key) : Option V := t.entries.lookup k

def size (t : Totals V) : Nat := t.entries.length

def isEmpty (t : Totals V) : Bool := t.entries.isEmpty

end Totals

/-- The order of a query's answer: by name, then by unit, texts by their UTF-8 bytes. -/
def Event.compare {V : Type} (a b : Event V) : Ordering :=
  (Text.compareUtf8 a.name b.name).then (Text.compareUtf8 a.unit b.unit)

/-- The pairs as events, ordered by name and unit; origin and trace are dropped. -/
def sortedEvents {V : Type} (pairs : List (Key × V)) : List (Event V) :=
  (pairs.map fun p => ⟨p.1.name, p.2, p.1.unit⟩).mergeSort fun a b => a.compare b != .gt

def Totals.events (t : Totals V) : List (Event V) := sortedEvents t.entries

end TraceTally
