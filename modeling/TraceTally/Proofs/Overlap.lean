import Mathlib.Algebra.GroupWithZero.Nat
import Mathlib.Data.List.Dedup
import Mathlib.Logic.Function.Iterate
import TraceTally.Proofs.Removal

/-!
# Removals that overlap

Removals take no lock: each scans and then removes row by row, and between any two of these steps
other removals take theirs and batches are written. A step that removes a row which is no longer
there succeeds, and is counted like any other. So the counts say how many steps were made; they are
the number of rows that are gone only if no step came too late.
-/

namespace TraceTally

variable {σ V : Type}

/-- Where a removal stands between two calls to the store. -/
inductive Removing where
  | selecting (p : Predicate)
  /-- These rows are still to be removed; the number counts the steps made. -/
  | removing (left : List RowId) (removed : Nat)
  | answered (answer : Except Failure Nat)

namespace Removing

def start (f : Filter) : Removing :=
  match f.toRemoval with
  | .error e => answered (.error e)
  | .ok p => selecting p

/-- The removal makes its next call to the store. -/
def advance [EventStore σ V] (today : Int) : Removing × σ → Removing × σ
  | (selecting p, s) =>
    match EventStore.scan today p s with
    | (.error e, s) => (answered (.error e), s)
    | (.ok rows, s) => (removing (rows.map ScannedRow.id) 0, s)
  | (removing [] removed, s) => (answered (.ok removed), s)
  | (removing (id :: rest) removed, s) =>
    match EventStore.deleteRow id s with
    | (.error e, s) => (answered (.error e), s)
    | (.ok (), s) => (removing rest (removed + 1), s)
  | (answered answer, s) => (answered answer, s)

/-- The loop, step by step. -/
theorem advance_removing_alone [EventStore σ V] (today : Int) (ids : List RowId) (removed : Nat)
    (s : σ) : ∃ n, (advance today)^[n] (removing ids removed, s) =
      (answered (removeRows ids removed s).1, (removeRows ids removed s).2) := by
  induction ids generalizing removed s with
  | nil => exact ⟨1, rfl⟩
  | cons id rest ih =>
    cases step : EventStore.deleteRow id s with
    | mk answer s' =>
      cases answer with
      | error e => exact ⟨1, by simp [advance, removeRows, step]⟩
      | ok =>
        obtain ⟨n, rest⟩ := ih (removed + 1) s'
        refine ⟨n + 1, ?_⟩
        simpa only [Function.iterate_succ_apply, advance, removeRows, step] using rest

/-- A removal that nobody interrupts does, step by step, what a removal does. -/
theorem advance_alone [EventStore σ V] (today : Int) (f : Filter) (s : σ) :
    ∃ n, (advance today)^[n] (start f, s) =
      (answered (removeEvents today f s).1, (removeEvents today f s).2) := by
  cases removal : f.toRemoval with
  | error e => exact ⟨0, by simp [start, removeEvents, removal]⟩
  | ok p =>
    cases scan : EventStore.scan today p s with
    | mk answer s' =>
      cases answer with
      | error e => exact ⟨1, by simp [start, advance, removeEvents, removal, scan]⟩
      | ok rows =>
        obtain ⟨n, rest⟩ := advance_removing_alone today (rows.map ScannedRow.id) 0 s'
        refine ⟨n + 1, ?_⟩
        simpa only [Function.iterate_succ_apply, start, advance, removeEvents, removal, scan]
          using rest

/-- The rows still to be removed. -/
def left : Removing → List RowId
  | selecting _ => []
  | removing ids _ => ids
  | answered _ => []

/-- The row that the next step removes. -/
def target? (call : Removing) : Option RowId := call.left.head?

/-- The steps counted so far. -/
def counted : Removing → Nat
  | selecting _ => 0
  | removing _ n => n
  | answered (.ok n) => n
  | answered (.error _) => 0

def returned? : Removing → Option Nat
  | answered (.ok n) => some n
  | _ => none

def isAnswered : Removing → Bool
  | answered _ => true
  | _ => false

@[simp] theorem counted_start (f : Filter) : (start f).counted = 0 := by
  unfold start
  split <;> rfl

@[simp] theorem left_start (f : Filter) : (start f).left = [] := by
  unfold start
  split <;> rfl

theorem counted_of_isAnswered {call : Removing} (done : call.isAnswered = true) :
    call.counted = call.returned?.getD 0 := by
  cases call with
  | selecting p => cases done
  | removing ids n => cases done
  | answered answer => cases answer <;> rfl

end Removing

namespace MemoryStore

variable {s : MemoryStore V}

@[simp] theorem goneIn_self (s : MemoryStore V) : s.goneIn s = [] := by
  refine List.filter_eq_nil_iff.mpr fun r hr gone => ?_
  exact of_decide_eq_true gone (List.mem_map_of_mem hr)

/-- An identifier is there still, or its row is gone. -/
theorem mem_ids_or_goneIn (after : MemoryStore V) {id : RowId} (stored : id ∈ s.ids) :
    id ∈ after.ids ∨ id ∈ (s.goneIn after).map Record.id := by
  obtain ⟨r, hr, rfl⟩ := List.mem_map.mp stored
  by_cases kept : r.id ∈ after.ids
  · exact .inl kept
  · exact .inr (List.mem_map_of_mem (List.mem_filter.mpr ⟨hr, decide_eq_true kept⟩))

theorem goneIn_erase (id : RowId) (s : MemoryStore V) :
    s.goneIn (s.erase id) = s.rows.filter fun r => r.id = id := by
  have erased := goneIn_eraseAll [id] s
  rw [eraseAll_cons, eraseAll_nil] at erased
  simpa using erased

/-- A removal takes one row, unless it comes too late. -/
theorem length_goneIn_erase (distinct : DistinctIds s.rows) (id : RowId) :
    (s.goneIn (s.erase id)).length = if id ∈ s.ids then 1 else 0 := by
  rw [goneIn_erase]
  by_cases stored : id ∈ s.ids
  · obtain ⟨r, hr, rfl⟩ := List.mem_map.mp stored
    have one := distinct.filter_mem_eq (List.singleton_sublist.mpr hr)
    simp only [List.map_singleton, List.mem_singleton] at one
    rw [one, if_pos stored, List.length_singleton]
  · rw [if_neg stored, List.length_eq_zero_iff, List.filter_eq_nil_iff]
    intro r hr same
    exact stored (of_decide_eq_true same ▸ List.mem_map_of_mem hr)

/-- A write drops what has expired; what it replaces keeps its identifier. -/
theorem not_isLive_of_mem_goneIn {now : Int} {batch : List (Record V)} {r : Record V}
    (dropped : r ∈ s.goneIn (s.write now batch)) : r.isLive now = false := by
  obtain ⟨hr, absent⟩ := List.mem_filter.mp dropped
  have absent := of_decide_eq_true absent
  by_contra live
  apply absent
  by_cases replaced : ∃ new ∈ batch, new.id = r.id
  · obtain ⟨new, hnew, same⟩ := replaced
    exact List.mem_map.mpr ⟨new, mem_rows_write.mpr (.inr hnew), same⟩
  · push Not at replaced
    rw [Bool.not_eq_false] at live
    exact List.mem_map_of_mem (mem_rows_write.mpr (.inl ⟨hr, live, replaced⟩))

theorem ids_select_subset (now : Int) (p : Predicate) (s : MemoryStore V) :
    (s.select now p).map ScannedRow.id ⊆ s.ids := by
  rw [select, List.map_map]
  exact (List.filter_sublist.map Record.id).subset

end MemoryStore

namespace Removing

/-- The row that the next step would remove, if it is not there. -/
def misses (s : MemoryStore V) (call : Removing) : List RowId :=
  call.target?.toList.filter (· ∉ s.ids)

/-- What one step of one removal does: it takes a row or misses one for each that it counts, and
it intends to remove only what it has found. -/
structure Stepped (call call' : Removing) (s s' : MemoryStore V) : Prop where
  sublist : s'.rows.Sublist s.rows
  counted : call'.counted = call.counted + ((s.goneIn s').length + (call.misses s).length)
  left : ∀ id ∈ call'.left, id ∈ call.left ∨ id ∈ s.ids

theorem stepped_advance (today : Int) (call : Removing) {s : MemoryStore V}
    (distinct : DistinctIds s.rows) :
    Stepped call (advance today (call, s)).1 s (advance today (call, s)).2 := by
  cases call with
  | selecting p =>
    refine ⟨.refl _, ?_, ?_⟩
    · change 0 = 0 + ((s.goneIn s).length + 0)
      rw [MemoryStore.goneIn_self]
      rfl
    · intro id found
      exact .inr (MemoryStore.ids_select_subset today p s found)
  | removing ids n =>
    cases ids with
    | nil =>
      refine ⟨.refl _, ?_, nofun⟩
      change n = n + ((s.goneIn s).length + 0)
      rw [MemoryStore.goneIn_self]
      rfl
    | cons id rest =>
      refine ⟨List.filter_sublist, ?_, fun id' later => .inl (List.mem_cons_of_mem _ later)⟩
      change n + 1 = n + ((s.goneIn (s.erase id)).length + ([id].filter _).length)
      rw [MemoryStore.length_goneIn_erase distinct]
      by_cases stored : id ∈ s.ids
      · rw [if_pos stored, List.filter_cons_of_neg (by simpa using stored)]
        rfl
      · rw [if_neg stored, List.filter_cons_of_pos (by simpa using stored)]
        rfl
  | answered answer =>
    refine ⟨.refl _, ?_, nofun⟩
    change counted (answered answer) = counted (answered answer) + ((s.goneIn s).length + 0)
    rw [MemoryStore.goneIn_self]
    rfl

end Removing

/-- What can happen next. -/
inductive Overlap.Action (V : Type) where
  | call (f : Filter)
  /-- One of the removals makes its next call to the store, at this reading of the clock. -/
  | advance (i : Nat) (today : Int)
  | write (now : Int) (batch : List (Record V))

/-- Removals in progress on one store, with what became of its rows. -/
structure Overlap (V : Type) where
  store : MemoryStore V
  calls : List Removing := []
  /-- The rows that the removals took. -/
  gone : List (Record V) := []
  /-- The rows that were to be removed when they were no longer there. -/
  missed : List RowId := []
  /-- The rows that writes dropped, and when. -/
  dropped : List (Int × Record V) := []

namespace Overlap

def step (s : Overlap V) : Action V → Overlap V
  | .call f => { s with calls := s.calls ++ [.start f] }
  | .advance i today =>
    match s.calls[i]? with
    | none => s
    | some call =>
      let (call', store) := Removing.advance today (call, s.store)
      { s with
        store
        calls := s.calls.set i call'
        gone := s.gone ++ s.store.goneIn store
        missed := s.missed ++ call.misses s.store }
  | .write now batch =>
    let store := s.store.write now batch
    { s with store, dropped := s.dropped ++ (s.store.goneIn store).map fun r => (now, r) }

def run (s : Overlap V) (actions : List (Action V)) : Overlap V := actions.foldl step s

/-- The counts that the calls returned. -/
def returned (s : Overlap V) : List Nat := s.calls.filterMap Removing.returned?

/-- A removal took the row, or a write dropped it when it had expired. -/
def Lost (s : Overlap V) (id : RowId) : Prop :=
  id ∈ s.gone.map Record.id ∨ ∃ now r, (now, r) ∈ s.dropped ∧ r.id = id ∧ r.isLive now = false

/-- Every step counted took a row or missed one, and what is missed has been lost. -/
structure Tallied (s : Overlap V) : Prop where
  distinct : DistinctIds s.store.rows
  counted : (s.calls.map Removing.counted).sum = s.gone.length + s.missed.length
  left : ∀ call ∈ s.calls, ∀ id ∈ call.left, id ∈ s.store.ids ∨ s.Lost id
  missed : ∀ id ∈ s.missed, s.Lost id

/-- One term of a sum grows. -/
theorem sum_map_set {α : Type} {f : α → Nat} {l : List α} {i : Nat} {a b : α} {n : Nat}
    (found : l[i]? = some a) (grown : f b = f a + n) :
    ((l.set i b).map f).sum = (l.map f).sum + n := by
  induction l generalizing i with
  | nil => cases found
  | cons c l ih =>
    cases i with
    | zero =>
      obtain rfl : c = a := Option.some.inj found
      simp only [List.set_cons_zero, List.map_cons, List.sum_cons, grown]
      omega
    | succ i =>
      simp only [List.set_cons_succ, List.map_cons, List.sum_cons, ih found]
      omega

/-- No row is forgotten from one state to the other. -/
structure Follows (s s' : Overlap V) : Prop where
  stored : ∀ id ∈ s.store.ids, id ∈ s'.store.ids ∨ s'.Lost id
  gone : s.gone ⊆ s'.gone
  dropped : s.dropped ⊆ s'.dropped

namespace Follows

variable {s s' : Overlap V} {id : RowId}

theorem lost (follows : s.Follows s') (lost : s.Lost id) : s'.Lost id := by
  rcases lost with gone | ⟨now, r, dropped, expired⟩
  · exact .inl (List.map_subset _ follows.gone gone)
  · exact .inr ⟨now, r, follows.dropped dropped, expired⟩

theorem stored_or_lost (follows : s.Follows s') (known : id ∈ s.store.ids ∨ s.Lost id) :
    id ∈ s'.store.ids ∨ s'.Lost id := by
  rcases known with stored | lost
  · exact follows.stored id stored
  · exact .inr (follows.lost lost)

end Follows

variable {s : Overlap V}

theorem follows_write (now : Int) (batch : List (Record V)) :
    s.Follows (s.step (.write now batch)) where
  stored id stored := by
    apply (MemoryStore.mem_ids_or_goneIn (s.store.write now batch) stored).imp_right
    intro dropped
    obtain ⟨r, hr, rfl⟩ := List.mem_map.mp dropped
    refine .inr ⟨now, r, ?_, rfl, MemoryStore.not_isLive_of_mem_goneIn hr⟩
    exact List.mem_append_right _ (List.mem_map_of_mem hr)
  gone := List.Subset.refl _
  dropped := List.subset_append_left _ _

theorem step_advance_of_none {i : Nat} (today : Int) (none_ : s.calls[i]? = none) :
    s.step (.advance i today) = s := by
  simp only [step, none_]

theorem step_advance {i : Nat} {call : Removing} (today : Int) (found : s.calls[i]? = some call) :
    s.step (.advance i today) =
      let next := Removing.advance today (call, s.store)
      { s with
        store := next.2
        calls := s.calls.set i next.1
        gone := s.gone ++ s.store.goneIn next.2
        missed := s.missed ++ call.misses s.store } := by
  simp only [step, found]

theorem follows_advance (i : Nat) (today : Int) : s.Follows (s.step (.advance i today)) := by
  cases found : s.calls[i]? with
  | none =>
    rw [step_advance_of_none today found]
    exact ⟨fun _ => .inl, List.Subset.refl _, List.Subset.refl _⟩
  | some call =>
    rw [step_advance today found]
    refine ⟨?_, List.subset_append_left _ _, List.Subset.refl _⟩
    intro id stored
    have after := MemoryStore.mem_ids_or_goneIn (Removing.advance today (call, s.store)).2 stored
    apply after.imp_right
    intro gone
    exact .inl (List.map_subset _ (List.subset_append_right _ _) gone)

namespace Tallied

theorem call (tallied : s.Tallied) (f : Filter) : (s.step (.call f)).Tallied where
  distinct := tallied.distinct
  counted := by
    change ((s.calls ++ [Removing.start f]).map Removing.counted).sum = _
    rw [List.map_append, List.sum_append, tallied.counted]
    simp [step]
  left := by
    intro call made
    obtain old | new := List.mem_append.mp made
    · exact tallied.left call old
    · obtain rfl := List.mem_singleton.mp new
      simp
  missed := tallied.missed

theorem write (tallied : s.Tallied) {now : Int} {batch : List (Record V)}
    (once : DistinctIds batch) : (s.step (.write now batch)).Tallied where
  distinct := MemoryStore.distinctIds_write tallied.distinct once
  counted := tallied.counted
  left call made id intended :=
    (follows_write now batch).stored_or_lost (tallied.left call made id intended)
  missed id missed := (follows_write now batch).lost (tallied.missed id missed)

theorem advance (tallied : s.Tallied) (i : Nat) (today : Int) :
    (s.step (.advance i today)).Tallied := by
  have follows : s.Follows (s.step (.advance i today)) := follows_advance i today
  cases found : s.calls[i]? with
  | none =>
    rw [step_advance_of_none today found]
    exact tallied
  | some call =>
    have stepped := Removing.stepped_advance today call tallied.distinct
    have mem : call ∈ s.calls := List.mem_of_getElem? found
    rw [step_advance today found] at follows ⊢
    constructor
    · exact tallied.distinct.of_sublist stepped.sublist
    · have sum := sum_map_set found stepped.counted
      rw [tallied.counted] at sum
      simp only [List.length_append, sum]
      omega
    · intro call' made id intended
      apply follows.stored_or_lost
      obtain old | rfl := List.mem_or_eq_of_mem_set made
      · exact tallied.left call' old id intended
      · rcases stepped.left id intended with already | found
        · exact tallied.left call mem id already
        · exact .inl found
    · intro id missed
      obtain old | new := List.mem_append.mp missed
      · exact follows.lost (tallied.missed id old)
      · -- What this call meant to remove was stored when it scanned, and is not any more.
        obtain ⟨meant, late⟩ := List.mem_filter.mp new
        have meant : id ∈ call.left := List.mem_of_mem_head? (Option.mem_toList.mp meant)
        apply follows.lost
        exact (tallied.left call mem id meant).resolve_left (of_decide_eq_true late)

/-- Whatever happens next. -/
theorem step (tallied : s.Tallied) (action : Action V)
    (once : ∀ now batch, action = .write now batch → DistinctIds batch) :
    (s.step action).Tallied := by
  cases action with
  | call f => exact tallied.call f
  | advance i today => exact tallied.advance i today
  | write now batch => exact tallied.write (once now batch rfl)

theorem run (tallied : s.Tallied) {actions : List (Action V)}
    (once : ∀ now batch, .write now batch ∈ actions → DistinctIds batch) :
    (s.run actions).Tallied := by
  induction actions generalizing s with
  | nil => exact tallied
  | cons action actions ih =>
    apply ih
    · apply tallied.step action
      rintro now batch rfl
      exact once now batch List.mem_cons_self
    · intro now batch later
      exact once now batch (List.mem_cons_of_mem _ later)

/-- When all calls have been answered, what they have counted is what they return. -/
theorem returned_sum (tallied : s.Tallied) (done : ∀ call ∈ s.calls, call.isAnswered = true) :
    s.returned.sum = s.gone.length + s.missed.length := by
  rw [← tallied.counted, returned]
  generalize s.calls = calls at done
  induction calls with
  | nil => rfl
  | cons call calls ih =>
    have rest := ih fun call' later => done call' (List.mem_cons_of_mem _ later)
    have first := Removing.counted_of_isAnswered (done call List.mem_cons_self)
    rw [List.map_cons, List.sum_cons, first, ← rest]
    cases returned : call.returned? with
    | none => simp [returned]
    | some n => simp [returned]

end Tallied

/-- The sum of the counts is the number of rows that the removals took, and one more for each row
that was no longer there when it was to be removed. So it is the number of distinct rows taken if
and only if no removal came too late, and none took a row that had been taken before and written
again. No row that was taken goes uncounted, and a row is missed only if another removal took it or
a write dropped it as expired. -/
theorem returned_eq_taken_iff (store : MemoryStore V) (distinct : DistinctIds store.rows)
    (actions : List (Action V)) (once : ∀ now batch, .write now batch ∈ actions → DistinctIds batch)
    (done : ∀ call ∈ (run { store } actions).calls, call.isAnswered = true) :
    let s := run { store } actions
    (s.returned.sum = (s.gone.map Record.id).dedup.length ↔
      s.missed = [] ∧ (s.gone.map Record.id).Nodup) ∧
    s.returned.sum = s.gone.length + s.missed.length ∧ ∀ id ∈ s.missed, s.Lost id := by
  intro s
  have start : Tallied { store } := ⟨distinct, rfl, nofun, nofun⟩
  have tallied : s.Tallied := start.run once
  have sum : s.returned.sum = s.gone.length + s.missed.length := tallied.returned_sum done
  refine ⟨?_, sum, tallied.missed⟩
  have sub := List.dedup_sublist (s.gone.map Record.id)
  have le := sub.length_le
  rw [List.length_map] at le
  rw [sum]
  constructor
  · intro exact_
    constructor
    · rw [← List.length_eq_zero_iff]
      omega
    · rw [← List.dedup_eq_self]
      apply sub.eq_of_length
      rw [List.length_map]
      omega
  · rintro ⟨none_, nodup⟩
    rw [none_, nodup.dedup, List.length_map, List.length_nil, Nat.add_zero]

/-- Two removals find the same row before either takes it, and each counts it. -/
theorem row_counted_twice :
    let row : Record Nat := ⟨0, ⟨"o", "t", "a", "u"⟩, 2, 0, 9⟩
    let actions : List (Action Nat) :=
      [.call { traceId := some "t" }, .call { traceId := some "t" }, .advance 0 5, .advance 1 5,
        .advance 0 5, .advance 1 5, .advance 0 5, .advance 1 5]
    let s := run { store := { rows := [row] } } actions
    (∀ call ∈ s.calls, call.isAnswered = true) ∧ s.returned = [1, 1] ∧ s.gone = [row] ∧
      s.returned.sum ≠ (s.gone.map Record.id).dedup.length := by
  decide +kernel

/-- Two removals overlap, but want different rows; a batch is written meanwhile. -/
theorem returned_eq_taken_of_different :
    let rows : List (Record Nat) :=
      [⟨0, ⟨"o", "t", "a", "u"⟩, 2, 0, 9⟩, ⟨1, ⟨"o", "t", "b", "u"⟩, 3, 0, 9⟩]
    let actions : List (Action Nat) :=
      [.call { traceId := some "t", eventName := some "a" }, .call { eventName := some "b" },
        .advance 0 5, .advance 1 5, .write 5 [⟨2, ⟨"o", "t", "a", "u"⟩, 4, 0, 9⟩],
        .advance 1 5, .advance 0 5, .advance 0 5, .advance 1 5]
    let s := run { store := { rows } } actions
    s.returned = [1, 1] ∧ s.returned.sum = (s.gone.map Record.id).dedup.length := by
  intro rows actions s
  have once : ∀ now batch, .write now batch ∈ actions → DistinctIds batch := by
    intro now batch written
    simp only [actions, List.mem_cons, Action.write.injEq, reduceCtorEq, List.not_mem_nil, or_false,
      false_or] at written
    rw [written.2]
    decide
  have counts := returned_eq_taken_iff { rows } (by decide) actions once (by decide +kernel)
  exact ⟨by decide +kernel, counts.1.mpr (by decide +kernel)⟩

end Overlap

end TraceTally
