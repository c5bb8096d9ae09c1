import TraceTally.Collector.Removal
import TraceTally.Proofs.Answer
import TraceTally.Proofs.OneRow
import TraceTally.Proofs.RecordMap
import TraceTally.Server.Rpc

/-!
# What a removal takes away

A removal takes exactly the live rows that its filter selects, in the order of the store, and stops
at the first failure: then the rows before the failure are gone and all others are what they were.
What a removal can do is said once, as a case analysis; nothing else looks into its loop.
-/

namespace TraceTally

variable {V : Type}

namespace Filter

/-- The filter may be used to remove: it is valid, and no call without fields empties the store. -/
def MayRemove (f : Filter) : Prop := f.Valid ∧ f.isEmpty = false

theorem isEmpty_iff_setFields {f : Filter} : f.isEmpty = true ↔ f.setFields = [] := by
  obtain ⟨traceId, origin, eventName⟩ := f
  cases traceId <;> cases origin <;> cases eventName <;> simp [isEmpty, setFields]

theorem toRemoval_of_mayRemove {f : Filter} (may : f.MayRemove) :
    f.toRemoval = .ok ⟨f.setFields⟩ ∧ f.toPredicate = .ok ⟨f.setFields⟩ := by
  obtain ⟨p, valid⟩ := toPredicate_ok_iff_valid.mpr may.1
  obtain rfl := toPredicate_ok valid
  have some_ : Predicate.isEmpty ⟨f.setFields⟩ = false := by
    rw [Predicate.isEmpty, List.isEmpty_eq_false_iff, Ne, ← isEmpty_iff_setFields, may.2]
    exact Bool.false_ne_true
  constructor
  · simp [toRemoval, valid, Except.bind, some_]
  · exact valid

theorem toRemoval_of_not_mayRemove {f : Filter} (mayNot : ¬ f.MayRemove) :
    ∃ reason, f.toRemoval = .error (.invalidFilter reason) := by
  cases validity : f.toPredicate with
  | error e =>
    obtain ⟨reason, rfl⟩ := toPredicate_error validity
    exact ⟨reason, by simp [toRemoval, validity, Except.bind]⟩
  | ok p =>
    have empty : p.isEmpty = true := by
      by_contra some_
      apply mayNot
      constructor
      · exact toPredicate_ok_iff_valid.mp ⟨p, validity⟩
      · rw [toPredicate_ok validity, Predicate.isEmpty, List.isEmpty_iff,
          ← isEmpty_iff_setFields] at some_
        exact Bool.eq_false_iff.mpr some_
    exact ⟨_, by simp only [toRemoval, validity, Except.bind, empty, if_true]; rfl⟩

/-- The live rows that the filter selects, in the order of the store. -/
def selected (f : Filter) (today : Int) (rows : List (Record V)) : List (Record V) :=
  rows.filter fun r => r.isLive today ∧ f.Selects r.key

theorem select_eq_selected {f : Filter} {p : Predicate} (valid : f.toPredicate = .ok p)
    (today : Int) (s : MemoryStore V) :
    s.select today p = (f.selected today s.rows).map Record.scanned := by
  rw [MemoryStore.select, selected]
  refine congrArg (List.map Record.scanned) (List.filter_congr fun r _ => ?_)
  rw [Bool.eq_iff_iff, Bool.and_eq_true, decide_eq_true_eq, holds_iff valid]

end Filter

namespace MemoryStore

/-- The store without the rows of these identifiers. -/
def eraseAll (ids : List RowId) (s : MemoryStore V) : MemoryStore V :=
  { s with rows := s.rows.filter fun r => r.id ∉ ids }

@[simp] theorem eraseAll_nil (s : MemoryStore V) : s.eraseAll [] = s := by
  simp [eraseAll]

theorem eraseAll_cons (id : RowId) (ids : List RowId) (s : MemoryStore V) :
    s.eraseAll (id :: ids) = (s.erase id).eraseAll ids := by
  simp only [eraseAll, erase, List.filter_filter, List.mem_cons, not_or]
  congr 1
  apply List.filter_congr
  intro r _
  by_cases r.id = id <;> simp [*]

abbrev ids (s : MemoryStore V) : List RowId := s.rows.map Record.id

/-- The rows whose identifiers the other store does not have. -/
def goneIn (s after : MemoryStore V) : List (Record V) :=
  s.rows.filter fun r => r.id ∉ after.ids

theorem goneIn_eraseAll (ids : List RowId) (s : MemoryStore V) :
    s.goneIn (s.eraseAll ids) = s.rows.filter fun r => r.id ∈ ids := by
  rw [goneIn]
  refine List.filter_congr fun r hr => ?_
  rw [decide_eq_decide, eraseAll, List.mem_map]
  constructor
  · intro gone
    by_contra spared
    exact gone ⟨r, List.mem_filter.mpr ⟨hr, decide_eq_true spared⟩, rfl⟩
  · rintro doomed ⟨r', hr', same⟩
    exact of_decide_eq_true (List.mem_filter.mp hr').2 (same ▸ doomed)

/-- If identifiers are distinct, no row goes but those meant. -/
theorem mem_eraseAll_iff {s : MemoryStore V} (distinct : DistinctIds s.rows)
    {doomed : List (Record V)} (sub : doomed ⊆ s.rows) {r : Record V} (hr : r ∈ s.rows) :
    r ∈ (s.eraseAll (doomed.map Record.id)).rows ↔ r ∉ doomed := by
  rw [eraseAll, List.mem_filter, decide_eq_true_eq, and_iff_right hr]
  constructor
  · intro kept gone
    exact kept (List.mem_map_of_mem gone)
  · intro kept gone
    obtain ⟨r', hr', same⟩ := List.mem_map.mp gone
    exact kept (distinct.eq_of_id_eq (sub hr') hr same ▸ hr')

end MemoryStore

namespace FaultyStore

variable {σ : Type}

/-- The next `n` calls of this kind pass, and the one after them fails. -/
def FailsAfter (point : FaultPoint) (n : Nat) (e : Failure) (s : FaultyStore σ V) : Prop :=
  (∀ f ∈ (s.plan point).take n, f = none) ∧ (s.plan point)[n]? = some (some e)

theorem failsAfter_zero {point : FaultPoint} {e : Failure} {s : FaultyStore σ V} :
    s.FailsAfter point 0 e ↔ (s.consume point).1 = some e := by
  unfold FailsAfter consume
  cases s.plan point <;> simp

theorem failsAfter_succ {point : FaultPoint} {n : Nat} {e : Failure} {s : FaultyStore σ V} :
    s.FailsAfter point (n + 1) e ↔
      (s.consume point).1 = none ∧ (s.consume point).2.FailsAfter point n e := by
  unfold FailsAfter consume
  cases planned : s.plan point with
  | nil => simp [planned]
  | cons f rest => simp [setPlan, and_assoc]

/-- Among the next calls none fails, or a first one does. -/
theorem firstFault_cases (point : FaultPoint) (n : Nat) (s : FaultyStore σ V) :
    s.firstFault point n = none ∨ ∃ k e, k < n ∧ s.FailsAfter point k e := by
  induction n generalizing s with
  | zero => exact .inl (by simp [firstFault])
  | succ n ih =>
    rw [firstFault_succ]
    cases first : (s.consume point).1 with
    | some e => exact .inr ⟨0, e, Nat.succ_pos n, failsAfter_zero.mpr first⟩
    | none =>
      rcases ih (s.consume point).2 with passes | ⟨k, e, lt, fails⟩
      · exact .inl (by rw [passes]; rfl)
      · exact .inr ⟨k + 1, e, Nat.succ_lt_succ lt, failsAfter_succ.mpr ⟨first, fails⟩⟩

theorem FailsAfter.firstFault_eq {point : FaultPoint} {k : Nat} {e : Failure} {s : FaultyStore σ V}
    (fails : s.FailsAfter point k e) (n : Nat) :
    s.firstFault point n = if k < n then some e else none := by
  induction n generalizing k s with
  | zero => simp [firstFault]
  | succ n ih =>
    rw [firstFault_succ]
    cases k with
    | zero =>
      rw [failsAfter_zero.mp fails]
      simp
    | succ k =>
      obtain ⟨passes, fails⟩ := failsAfter_succ.mp fails
      rw [passes, Option.none_or, ih fails]
      simp only [Nat.succ_lt_succ_iff]

/-- There is one first failure. -/
theorem FailsAfter.unique {point : FaultPoint} {k k' : Nat} {e e' : Failure} {s : FaultyStore σ V}
    (fails : s.FailsAfter point k e) (fails' : s.FailsAfter point k' e') : k = k' ∧ e = e' := by
  have before := fails.firstFault_eq (k + 1)
  have before' := fails.firstFault_eq (k' + 1)
  rw [fails'.firstFault_eq] at before before'
  simp only [Nat.lt_succ_self, if_true] at before before'
  by_cases le : k' < k + 1
  · rw [if_pos le, Option.some.injEq] at before
    by_cases ge : k < k' + 1
    · exact ⟨by omega, before.symm⟩
    · rw [if_neg ge] at before'
      cases before'
  · rw [if_neg le] at before
    cases before

theorem guarded_of_some {α : Type} {point : FaultPoint} {s : FaultyStore σ V} {e : Failure}
    (fails : (s.consume point).1 = some e) (call : σ → Except Failure α × σ) :
    s.guarded point call = (.error e, (s.consume point).2) := by
  unfold guarded
  cases used : s.consume point with
  | mk fault s₁ =>
    rw [used] at fails
    obtain rfl : fault = some e := fails
    rfl

theorem guarded_of_none {α : Type} {point : FaultPoint} {s : FaultyStore σ V}
    (passes : (s.consume point).1 = none) (call : σ → Except Failure α × σ) :
    s.guarded point call =
      ((call s.inner).1, { (s.consume point).2 with inner := (call s.inner).2 }) := by
  have inner := s.inner_consume point
  unfold guarded
  cases used : s.consume point with
  | mk fault s₁ =>
    rw [used] at passes inner
    obtain rfl : fault = none := passes
    simp only [← inner]

theorem plan_consume_of_ne {point other : FaultPoint} (different : other ≠ point)
    (s : FaultyStore σ V) : (s.consume point).2.plan other = s.plan other := by
  unfold consume
  split
  · rfl
  · simp [setPlan, different]

end FaultyStore

namespace FallibleMemory

theorem deleteRow_of_some {id : RowId} {s : FallibleMemory V} {e : Failure}
    (fails : (s.consume .delete).1 = some e) :
    EventStore.deleteRow id s = (.error e, (s.consume .delete).2) :=
  FaultyStore.guarded_of_some fails _

theorem deleteRow_of_none {id : RowId} {s : FallibleMemory V}
    (passes : (s.consume .delete).1 = none) :
    EventStore.deleteRow id s =
      (.ok (), { (s.consume .delete).2 with inner := s.inner.erase id }) :=
  FaultyStore.guarded_of_none passes _

theorem scan_of_some {today : Int} {p : Predicate} {s : FallibleMemory V} {e : Failure}
    (fails : (s.consume .scan).1 = some e) :
    EventStore.scan today p s = (.error e, (s.consume .scan).2) :=
  FaultyStore.guarded_of_some fails _

theorem scan_of_none {today : Int} {p : Predicate} {s : FallibleMemory V}
    (passes : (s.consume .scan).1 = none) :
    EventStore.scan today p s = (.ok (s.inner.select today p), (s.consume .scan).2) := by
  refine (FaultyStore.guarded_of_none passes _).trans ?_
  exact congrArg (fun inner => (_, { (s.consume .scan).2 with inner })) (s.inner_consume .scan).symm

/-- The loop removes every row it is given, or those before the first call that fails. -/
theorem removeRows_cases (ids : List RowId) (n : Nat) (s : FallibleMemory V) :
    let done := removeRows ids n s
    (s.firstFault .delete ids.length = none →
      done.1 = .ok (n + ids.length) ∧ done.2.inner = s.inner.eraseAll ids) ∧
    ∀ k e, k < ids.length → s.FailsAfter .delete k e →
      done.1 = .error e ∧ done.2.inner = s.inner.eraseAll (ids.take k) := by
  induction ids generalizing n s with
  | nil => simp [removeRows]
  | cons id rest ih =>
    intro done
    cases first : (s.consume .delete).1 with
    | some e =>
      have stopped : done = (.error e, (s.consume .delete).2) := by
        simp only [done, removeRows, deleteRow_of_some first]
      constructor
      · intro passes
        rw [List.length_cons, FaultyStore.firstFault_succ, first] at passes
        cases passes
      · intro k e' _ fails
        cases k with
        | zero =>
          have fails := FaultyStore.failsAfter_zero.mp fails
          obtain rfl : e = e' := Option.some.inj (first.symm.trans fails)
          simp [stopped]
        | succ k =>
          have passes := (FaultyStore.failsAfter_succ.mp fails).1
          rw [first] at passes
          cases passes
    | none =>
      -- The rest of the loop runs on a store that has the plan of what remains.
      set s₁ : FallibleMemory V :=
        { (s.consume .delete).2 with inner := s.inner.erase id } with s₁_eq
      have goes : done = removeRows rest (n + 1) s₁ := by
        simp only [done, removeRows, deleteRow_of_none first, s₁_eq]
      obtain ⟨passing, failing⟩ := ih (n + 1) s₁
      rw [goes]
      constructor
      · intro passes
        rw [List.length_cons, FaultyStore.firstFault_succ, first, Option.none_or] at passes
        obtain ⟨answer, inner⟩ := passing passes
        constructor
        · rw [answer, List.length_cons, Nat.add_assoc, Nat.add_comm 1]
        · rw [inner, MemoryStore.eraseAll_cons]
      · intro k e lt fails
        cases k with
        | zero =>
          have fails := FaultyStore.failsAfter_zero.mp fails
          rw [first] at fails
          cases fails
        | succ k =>
          obtain ⟨answer, inner⟩ :=
            failing k e (Nat.lt_of_succ_lt_succ lt) (FaultyStore.failsAfter_succ.mp fails).2
          refine ⟨answer, ?_⟩
          rw [inner, List.take_succ_cons, MemoryStore.eraseAll_cons]

end FallibleMemory

/-- All that a removal can do to a store. -/
inductive RemovalCase (today : Int) (f : Filter) (s : FallibleMemory V) :
    Except Failure Nat → FallibleMemory V → Prop where
  | refused {reason : String} (mayNot : ¬ f.MayRemove) :
    RemovalCase today f s (.error (.invalidFilter reason)) s
  | unscanned {e : Failure} {s' : FallibleMemory V} (may : f.MayRemove)
      (scan : (s.consume .scan).1 = some e) (inner : s'.inner = s.inner) :
    RemovalCase today f s (.error e) s'
  | stopped {k : Nat} {e : Failure} {s' : FallibleMemory V} (may : f.MayRemove)
      (scan : (s.consume .scan).1 = none) (fails : s.FailsAfter .delete k e)
      (lt : k < (f.selected today s.inner.rows).length)
      (inner : s'.inner =
        s.inner.eraseAll (((f.selected today s.inner.rows).take k).map Record.id)) :
    RemovalCase today f s (.error e) s'
  | removed {s' : FallibleMemory V} (may : f.MayRemove) (scan : (s.consume .scan).1 = none)
      (passes : s.firstFault .delete (f.selected today s.inner.rows).length = none)
      (inner : s'.inner = s.inner.eraseAll ((f.selected today s.inner.rows).map Record.id)) :
    RemovalCase today f s (.ok (f.selected today s.inner.rows).length) s'

namespace RemovalCase

variable {today : Int} {f : Filter} {s s' : FallibleMemory V} {answer : Except Failure Nat}

theorem of_not_mayRemove (removal : RemovalCase today f s answer s') (mayNot : ¬ f.MayRemove) :
    (∃ reason, answer = .error (.invalidFilter reason)) ∧ s' = s := by
  cases removal with
  | refused => exact ⟨⟨_, rfl⟩, rfl⟩
  | unscanned may => exact absurd may mayNot
  | stopped may => exact absurd may mayNot
  | removed may => exact absurd may mayNot

theorem of_scan_fails (removal : RemovalCase today f s answer s') (may : f.MayRemove) {e : Failure}
    (fails : (s.consume .scan).1 = some e) : answer = .error e ∧ s'.inner = s.inner := by
  cases removal with
  | refused mayNot => exact absurd may mayNot
  | unscanned _ scan inner =>
    obtain rfl := Option.some.inj (scan.symm.trans fails)
    exact ⟨rfl, inner⟩
  | stopped _ scan => cases scan.symm.trans fails
  | removed _ scan => cases scan.symm.trans fails

theorem of_passes (removal : RemovalCase today f s answer s') (may : f.MayRemove)
    (scan : (s.consume .scan).1 = none)
    (passes : s.firstFault .delete (f.selected today s.inner.rows).length = none) :
    answer = .ok (f.selected today s.inner.rows).length ∧
      s'.inner = s.inner.eraseAll ((f.selected today s.inner.rows).map Record.id) := by
  cases removal with
  | refused mayNot => exact absurd may mayNot
  | unscanned _ fails => cases scan.symm.trans fails
  | stopped _ _ fails lt =>
    rw [fails.firstFault_eq, if_pos lt] at passes
    cases passes
  | removed _ _ _ inner => exact ⟨rfl, inner⟩

theorem of_failsAfter (removal : RemovalCase today f s answer s') (may : f.MayRemove)
    (scan : (s.consume .scan).1 = none) {k : Nat} {e : Failure} (fails : s.FailsAfter .delete k e)
    (lt : k < (f.selected today s.inner.rows).length) :
    answer = .error e ∧
      s'.inner = s.inner.eraseAll (((f.selected today s.inner.rows).take k).map Record.id) := by
  cases removal with
  | refused mayNot => exact absurd may mayNot
  | unscanned _ fails => cases scan.symm.trans fails
  | stopped _ _ fails' _ inner =>
    obtain ⟨rfl, rfl⟩ := fails.unique fails'
    exact ⟨rfl, inner⟩
  | removed _ _ passes =>
    rw [fails.firstFault_eq, if_pos lt] at passes
    cases passes

/-- Rows go, and none comes or changes. -/
theorem rows_sublist (removal : RemovalCase today f s answer s') :
    s'.inner.rows.Sublist s.inner.rows := by
  cases removal with
  | refused => exact .refl _
  | unscanned _ _ inner => exact inner ▸ .refl _
  | stopped _ _ _ _ inner => exact inner ▸ List.filter_sublist
  | removed _ _ _ inner => exact inner ▸ List.filter_sublist

end RemovalCase

theorem removeEvents_cases (today : Int) (f : Filter) (s : FallibleMemory V) :
    RemovalCase today f s (removeEvents today f s).1 (removeEvents today f s).2 := by
  by_cases may : f.MayRemove
  · obtain ⟨removal, valid⟩ := Filter.toRemoval_of_mayRemove may
    cases scan : (s.consume .scan).1 with
    | some e =>
      simp only [removeEvents, removal, FallibleMemory.scan_of_some scan]
      exact .unscanned may scan (s.inner_consume .scan)
    | none =>
      -- What the loop does, it does on a store whose plan of removals the scan has left alone.
      have planned : (s.consume .scan).2.plan .delete = s.plan .delete :=
        FaultyStore.plan_consume_of_ne (by decide) s
      obtain ⟨passing, failing⟩ := FallibleMemory.removeRows_cases
        ((f.selected today s.inner.rows).map Record.id) 0 (s.consume .scan).2
      rw [List.length_map, Nat.zero_add, s.inner_consume] at passing
      rw [List.length_map, s.inner_consume] at failing
      have loop : removeEvents today f s =
          removeRows ((f.selected today s.inner.rows).map Record.id) 0 (s.consume .scan).2 := by
        simp only [removeEvents, removal, FallibleMemory.scan_of_none scan,
          Filter.select_eq_selected valid, List.map_map]
        rfl
      rw [loop]
      rcases FaultyStore.firstFault_cases .delete (f.selected today s.inner.rows).length s with
        passes | ⟨k, e, lt, fails⟩
      · obtain ⟨answer, inner⟩ := passing (by rwa [FaultyStore.firstFault, planned])
        rw [answer]
        exact .removed may scan passes inner
      · obtain ⟨answer, inner⟩ := failing k e lt (by rwa [FaultyStore.FailsAfter, planned])
        rw [answer]
        rw [← List.map_take] at inner
        exact .stopped may scan fails lt inner
  · obtain ⟨reason, refused⟩ := Filter.toRemoval_of_not_mayRemove may
    simp only [removeEvents, refused]
    exact .refused may

namespace Collector

variable {σ : Type}

/-- What the collector notes of a removal, by its answer. -/
def noteRemoval (f : Filter) (c : Collector σ V) : Except Failure Nat → Collector σ V
  | .error _ => c
  | .ok n =>
    (c.count fun m => { m with deletedRows := m.deletedRows + n }).log (.eventsDeleted f n)

theorem delete_eq [EventStore σ V] (today : Int) (f : Filter) (c : Collector σ V) :
    c.delete today f =
      ((removeEvents today f c.store).1,
        noteRemoval f { c with store := (removeEvents today f c.store).2 }
          (removeEvents today f c.store).1) := by
  unfold delete
  cases removeEvents today f c.store with
  | mk answer store => cases answer <;> rfl

@[simp] theorem store_noteRemoval (f : Filter) (c : Collector σ V) (answer : Except Failure Nat) :
    (c.noteRemoval f answer).store = c.store := by
  cases answer <;> rfl

@[simp] theorem totals_noteRemoval (f : Filter) (c : Collector σ V) (answer : Except Failure Nat) :
    (c.noteRemoval f answer).totals = c.totals := by
  cases answer <;> rfl

@[simp] theorem lastExport_noteRemoval (f : Filter) (c : Collector σ V)
    (answer : Except Failure Nat) : (c.noteRemoval f answer).lastExport = c.lastExport := by
  cases answer <;> rfl

theorem delete_cases (today : Int) (f : Filter) (c : Collector (FallibleMemory V) V) :
    RemovalCase today f c.store (c.delete today f).1 (c.delete today f).2.store := by
  rw [delete_eq, store_noteRemoval]
  exact removeEvents_cases today f c.store

end Collector

/-- No name is given but the empty one. -/
def Selection.NamesNothing (s : Selection) : Prop :=
  ∀ name ∈ [s.traceId, s.origin, s.event], name = none ∨ name = some ""

theorem Selection.isEmpty_filter_iff {s : Selection} :
    s.filter.isEmpty = true ↔ s.NamesNothing := by
  have unset : ∀ name : Option String,
      (nonEmpty name).isNone = true ↔ name = none ∨ name = some "" := by
    intro name
    cases name with
    | none => simp [nonEmpty]
    | some t => by_cases empty : t = "" <;> simp [nonEmpty, empty]
  simp [filter, Filter.isEmpty, NamesNothing, unset, and_assoc]

/-- What is not selected now is not selected later. -/
theorem Filter.selected_of_not_selected {f : Filter} {today later : Int} (le : today ≤ later)
    (rows : List (Record V)) :
    f.selected later (rows.filter fun r => ¬ (r.isLive today ∧ f.Selects r.key)) = [] := by
  rw [selected, List.filter_eq_nil_iff]
  intro r hr chosen
  obtain ⟨live, selects⟩ := of_decide_eq_true chosen
  have spared := of_decide_eq_true (List.mem_filter.mp hr).2
  exact spared ⟨Record.isLive_of_le live le, selects⟩

/-- What is left if every selected row goes. -/
theorem MemoryStore.rows_eraseAll_selected {s : MemoryStore V} (distinct : DistinctIds s.rows)
    (f : Filter) (today : Int) :
    (s.eraseAll ((f.selected today s.rows).map Record.id)).rows =
      s.rows.filter fun r => ¬ (r.isLive today ∧ f.Selects r.key) := by
  apply List.filter_congr
  intro r hr
  have kept : r ∈ (s.eraseAll ((f.selected today s.rows).map Record.id)).rows ↔
      r ∉ f.selected today s.rows := mem_eraseAll_iff distinct List.filter_sublist.subset hr
  rw [eraseAll, List.mem_filter, decide_eq_true_eq, and_iff_right hr] at kept
  rw [decide_eq_decide, kept, Filter.selected, List.mem_filter, decide_eq_true_eq,
    and_iff_right hr]

namespace RemovalCase

variable {today : Int} {f : Filter} {s s' : FallibleMemory V} {answer : Except Failure Nat}

theorem removes_selected (removal : RemovalCase today f s answer s') (may : f.MayRemove)
    (distinct : DistinctIds s.inner.rows) (scan : (s.consume .scan).1 = none)
    (passes : s.firstFault .delete (f.selected today s.inner.rows).length = none) :
    answer = .ok (f.selected today s.inner.rows).length ∧
      s'.inner.rows = s.inner.rows.filter fun r => ¬ (r.isLive today ∧ f.Selects r.key) := by
  obtain ⟨answer, inner⟩ := removal.of_passes may scan passes
  exact ⟨answer, inner ▸ MemoryStore.rows_eraseAll_selected distinct f today⟩

theorem removes_first_selected (removal : RemovalCase today f s answer s') (may : f.MayRemove)
    (distinct : DistinctIds s.inner.rows) (scan : (s.consume .scan).1 = none) {k : Nat}
    {e : Failure} (lt : k < (f.selected today s.inner.rows).length)
    (fails : s.FailsAfter .delete k e) :
    answer = .error e ∧ s'.inner.rows.Sublist s.inner.rows ∧
      ∀ r ∈ s.inner.rows, r ∈ s'.inner.rows ↔ r ∉ (f.selected today s.inner.rows).take k := by
  obtain ⟨answer, inner⟩ := removal.of_failsAfter may scan fails lt
  refine ⟨answer, removal.rows_sublist, ?_⟩
  intro r hr
  rw [inner]
  apply MemoryStore.mem_eraseAll_iff distinct _ hr
  exact fun r taken => List.filter_sublist.subset (List.mem_of_mem_take taken)

end RemovalCase

namespace Collector

variable [Add V]

theorem query_of_scan {today : Int} {f : Filter} {p : Predicate}
    {c : Collector (FallibleMemory V) V} (valid : f.toPredicate = .ok p)
    (scan : (c.store.consume .scan).1 = none) :
    (c.query today f).1 = .ok (f.aggregate (c.store.inner.select today p)).events := by
  simp only [query, TraceTally.query, valid, FallibleMemory.scan_of_none scan]

theorem query_of_none_selected {today : Int} {f : Filter} {c : Collector (FallibleMemory V) V}
    (may : f.MayRemove) (scan : (c.store.consume .scan).1 = none)
    (gone : f.selected today c.store.inner.rows = []) : (c.query today f).1 = .ok [] := by
  have valid := (Filter.toRemoval_of_mayRemove may).2
  rw [query_of_scan valid scan, Filter.select_eq_selected valid, gone]
  simp [Filter.aggregate, Totals.mergeAll, Totals.empty, Totals.events, sortedEvents]

/-- A removal takes the live rows that its filter selects, and no others. If a row cannot be
removed, those before it are gone and all others are there. A filter that is not valid, or has no
field, removes nothing; nor does a request that names nothing. The buffer is left alone, and what a
removal took no later query finds. -/
theorem delete_removes_exactly_selected (today : Int) (f : Filter)
    (c : Collector (FallibleMemory V) V) (distinct : DistinctIds c.store.inner.rows) :
    let done := c.delete today f
    let before := c.store.inner.rows
    let after := done.2.store.inner.rows
    let selected := f.selected today before
    (done.2.totals = c.totals ∧ done.2.lastExport = c.lastExport) ∧
    (¬ f.Valid ∨ f.isEmpty = true →
      (∃ reason, done.1 = .error (.invalidFilter reason)) ∧ after = before) ∧
    (f.Valid → f.isEmpty = false →
      (∀ e, (c.store.consume .scan).1 = some e → done.1 = .error e ∧ after = before) ∧
      ((c.store.consume .scan).1 = none →
        (c.store.firstFault .delete selected.length = none →
          done.1 = .ok selected.length ∧
          after = before.filter (fun r => ¬ (r.isLive today ∧ f.Selects r.key)) ∧
          ∀ later, today ≤ later → (done.2.store.consume .scan).1 = none →
            (done.2.query later f).1 = .ok []) ∧
        ∀ k e, k < selected.length → c.store.FailsAfter .delete k e →
          done.1 = .error e ∧ after.Sublist before ∧
            ∀ r ∈ before, r ∈ after ↔ r ∉ selected.take k)) ∧
    ∀ request : Selection, request.filter = f →
      let asked := Rpc.delete today request c
      asked.2 = done.2 ∧ (∀ n, done.1 = .ok n → asked.1 = .ok n) ∧
      (∀ e, done.1 = .error e → asked.1 = .error e.toStatus) ∧
      (¬ f.Valid ∨ request.NamesNothing →
        (∃ message, asked.1 = .error ⟨.invalidArgument, message⟩) ∧
          asked.2.store.inner.rows = before) := by
  intro done before after selected
  have removal : RemovalCase today f c.store done.1 done.2.store := delete_cases today f c
  have mayNot : ¬ f.Valid ∨ f.isEmpty = true → ¬ f.MayRemove := by
    rintro (invalid | empty) ⟨valid, some_⟩
    · exact invalid valid
    · cases empty.symm.trans some_
  refine ⟨?_, ?_, ?_, ?_⟩
  · rw [show done = _ from delete_eq today f c, totals_noteRemoval, lastExport_noteRemoval]
    exact ⟨rfl, rfl⟩
  · intro refused
    obtain ⟨invalid, same⟩ := removal.of_not_mayRemove (mayNot refused)
    exact ⟨invalid, congrArg (fun s : FallibleMemory V => s.inner.rows) same⟩
  · intro valid some_
    refine ⟨fun e fails => ?_, fun scan => ⟨fun passes => ?_, fun k e lt fails => ?_⟩⟩
    · obtain ⟨answer, inner⟩ := removal.of_scan_fails ⟨valid, some_⟩ fails
      exact ⟨answer, congrArg MemoryStore.rows inner⟩
    · obtain ⟨answer, rows⟩ := removal.removes_selected ⟨valid, some_⟩ distinct scan passes
      refine ⟨answer, rows, fun later le scan' => ?_⟩
      apply query_of_none_selected ⟨valid, some_⟩ scan'
      rw [rows]
      exact Filter.selected_of_not_selected le before
    · exact removal.removes_first_selected ⟨valid, some_⟩ distinct scan lt fails
  · rintro request rfl asked
    refine ⟨rfl, ?_, ?_, ?_⟩
    · intro n answer
      exact congrArg Rpc.answer answer
    · intro e answer
      exact congrArg Rpc.answer answer
    · rw [← Selection.isEmpty_filter_iff]
      intro refused
      obtain ⟨⟨reason, answer⟩, same⟩ := removal.of_not_mayRemove (mayNot refused)
      refine ⟨⟨_, congrArg Rpc.answer answer⟩, ?_⟩
      exact congrArg (fun s : FallibleMemory V => s.inner.rows) same

/-- Two rows of the trace are live, one has expired, and another trace has one between them. The
second call that removes a row finds the store down. -/
def downAtSecond : Collector (FallibleMemory Nat) Nat :=
  start ⟨9, .ofSeconds 60, .ofSeconds 3600, {}⟩
    { inner := {
        rows := [⟨0, ⟨"o", "t", "a", "u"⟩, 2, 0, 5⟩, ⟨1, ⟨"o", "t", "b", "u"⟩, 3, 0, 100⟩,
          ⟨2, ⟨"o", "t'", "b", "u"⟩, 4, 0, 100⟩, ⟨3, ⟨"o", "t", "c", "u"⟩, 5, 0, 100⟩] }
      plan := fun point => match point with
        | .delete => [none, some (.storeUnavailable "down")]
        | _ => [] } ⟨0⟩

theorem delete_removes_exactly_selected_downAtSecond :
    let done := downAtSecond.delete 5 { traceId := some "t" }
    done.1 = .error (.storeUnavailable "down") ∧
      ∀ r ∈ downAtSecond.store.inner.rows,
        r ∈ done.2.store.inner.rows ↔ r ∉ [⟨1, ⟨"o", "t", "b", "u"⟩, 3, 0, 100⟩] := by
  have valid : Filter.Valid { traceId := some "t" } :=
    Filter.toPredicate_ok_iff_valid.mp ⟨⟨[(.traceId, "t")]⟩, rfl⟩
  obtain ⟨answer, -, exactly_⟩ := ((delete_removes_exactly_selected 5 { traceId := some "t" }
    downAtSecond (by decide +kernel)).2.2.1 valid rfl).2 rfl |>.2 1 (.storeUnavailable "down")
    (by decide +kernel) ⟨by decide, rfl⟩
  have first : (Filter.selected { traceId := some "t" } 5 downAtSecond.store.inner.rows).take 1 =
      [⟨1, ⟨"o", "t", "b", "u"⟩, 3, 0, 100⟩] := by decide +kernel
  rw [first] at exactly_
  exact ⟨answer, exactly_⟩

end Collector

end TraceTally
