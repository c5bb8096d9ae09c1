import Mathlib.Algebra.GroupWithZero.Nat
import TraceTally.Proofs.Removal

/-!
# The books on removals

What the counter of removed rows and the audit trail say, against what is gone from the store. A
removal is compared with the rows before and after it, not with its own count. The books are exact
unless a removal stops midway: what it took until then is never counted, and no event tells of it.
-/

namespace TraceTally

variable {V : Type}

/-- A removal, with the collector as it was before. -/
structure RemovalCall (V : Type) where
  today : Int
  filter : Filter
  before : Collector (FallibleMemory V) V

namespace RemovalCall

def answer (call : RemovalCall V) : Except Failure Nat :=
  (call.before.delete call.today call.filter).1

def after (call : RemovalCall V) : Collector (FallibleMemory V) V :=
  (call.before.delete call.today call.filter).2

/-- The rows that are gone. -/
def taken (call : RemovalCall V) : List (Record V) :=
  call.before.store.inner.goneIn call.after.store.inner

/-- The events that were added to the trail. -/
def logged (call : RemovalCall V) : List AuditEvent :=
  call.after.audit.drop call.before.audit.length

/-- The removal fails at a row that is not the first. -/
def StopsMidway (call : RemovalCall V) : Prop :=
  let store := call.before.store
  call.filter.MayRemove ∧ (store.consume .scan).1 = none ∧
    ∃ k e, 0 < k ∧ k < (call.filter.selected call.today store.inner.rows).length ∧
      store.FailsAfter .delete k e

/-- The answer is the number of rows that are gone; it is counted and in the trail. -/
structure Booked (call : RemovalCall V) : Prop where
  answer : call.answer = .ok call.taken.length
  counter : call.after.metrics.deletedRows = call.before.metrics.deletedRows + call.taken.length
  trail : call.logged = [.eventsDeleted call.filter call.taken.length]

/-- The answer is an error, and nothing is counted or in the trail. -/
structure Unbooked (call : RemovalCall V) : Prop where
  answer : ∃ e, call.answer = .error e
  counter : call.after.metrics.deletedRows = call.before.metrics.deletedRows
  trail : call.logged = []

variable {call : RemovalCall V}

theorem removalCase (call : RemovalCall V) :
    RemovalCase call.today call.filter call.before.store call.answer call.after.store :=
  Collector.delete_cases call.today call.filter call.before

theorem after_eq (call : RemovalCall V) :
    call.after = Collector.noteRemoval call.filter
      { call.before with store := call.after.store } call.answer := by
  rw [after, answer, Collector.delete_eq, Collector.store_noteRemoval]

theorem unbooked_of_error {e : Failure} (failed : call.answer = .error e) : Unbooked call := by
  have after := call.after_eq
  rw [failed] at after
  refine ⟨⟨e, failed⟩, ?_, ?_⟩
  · rw [after]
    rfl
  · rw [logged, after]
    exact List.drop_length

theorem booked_of_ok (answered : call.answer = .ok call.taken.length) : Booked call := by
  have after := call.after_eq
  rw [answered] at after
  refine ⟨answered, ?_, ?_⟩
  · rw [after]
    rfl
  · rw [logged, after]
    exact List.drop_left

/-- A row is gone if it was to be removed by its identifier. -/
theorem taken_of_eraseAll {doomed : List (Record V)}
    (distinct : DistinctIds call.before.store.inner.rows)
    (sub : doomed.Sublist call.before.store.inner.rows)
    (inner : call.after.store.inner = call.before.store.inner.eraseAll (doomed.map Record.id)) :
    call.taken = doomed := by
  rw [taken, inner, MemoryStore.goneIn_eraseAll, distinct.filter_mem_eq sub]

theorem rows_after_sublist (call : RemovalCall V) :
    call.after.store.inner.rows.Sublist call.before.store.inner.rows :=
  call.removalCase.rows_sublist

theorem rows_add_taken (call : RemovalCall V)
    (distinct : DistinctIds call.before.store.inner.rows) :
    call.after.store.inner.rows.length + call.taken.length =
      call.before.store.inner.rows.length := by
  have kept := distinct.filter_mem_eq call.rows_after_sublist
  have split := List.length_eq_length_filter_add
    (fun r : Record V => decide (r.id ∈ call.after.store.inner.ids))
    (l := call.before.store.inner.rows)
  rw [kept] at split
  rw [split, taken, MemoryStore.goneIn]
  simp only [decide_not]

/-- A removal is booked, or else it fails; then it took rows if it stopped midway. -/
theorem booked_or_unbooked (call : RemovalCall V)
    (distinct : DistinctIds call.before.store.inner.rows) :
    (Booked call ∧ ¬ call.StopsMidway) ∨
      (Unbooked call ∧ (call.taken ≠ [] ↔ call.StopsMidway)) := by
  have removal := call.removalCase
  have untouched : call.after.store.inner = call.before.store.inner → call.taken = [] := by
    intro inner
    apply taken_of_eraseAll distinct (List.nil_sublist _)
    rw [inner, List.map_nil, MemoryStore.eraseAll_nil]
  by_cases may : call.filter.MayRemove
  · cases scan : (call.before.store.consume .scan).1 with
    | some e =>
      right
      obtain ⟨answer, inner⟩ := removal.of_scan_fails may scan
      refine ⟨unbooked_of_error answer, iff_of_false (not_not_intro (untouched inner)) ?_⟩
      rintro ⟨-, passes, -⟩
      cases scan.symm.trans passes
    | none =>
      set selected := call.filter.selected call.today call.before.store.inner.rows
      have stored : selected.Sublist call.before.store.inner.rows := List.filter_sublist
      rcases FaultyStore.firstFault_cases .delete selected.length call.before.store with
        passes | ⟨k, e, lt, fails⟩
      · left
        obtain ⟨answer, inner⟩ := removal.of_passes may scan passes
        have taken : call.taken = selected := taken_of_eraseAll distinct stored inner
        refine ⟨booked_of_ok (taken ▸ answer), ?_⟩
        rintro ⟨-, -, k, e, -, lt, fails⟩
        rw [fails.firstFault_eq, if_pos lt] at passes
        cases passes
      · right
        obtain ⟨answer, inner⟩ := removal.of_failsAfter may scan fails lt
        have taken : call.taken = selected.take k :=
          taken_of_eraseAll distinct ((List.take_sublist k _).trans stored) inner
        refine ⟨unbooked_of_error answer, ?_⟩
        rw [taken, Ne, List.take_eq_nil_iff]
        constructor
        · intro some_
          push Not at some_
          exact ⟨may, scan, k, e, Nat.pos_of_ne_zero some_.1, lt, fails⟩
        · rintro ⟨-, -, k', e', pos, lt', fails'⟩
          obtain ⟨rfl, -⟩ := fails.unique fails'
          rintro (rfl | none_)
          · exact Nat.lt_irrefl 0 pos
          · rw [none_] at lt
            cases lt
  · right
    obtain ⟨⟨reason, answer⟩, store⟩ := removal.of_not_mayRemove may
    have inner := congrArg FaultyStore.inner store
    refine ⟨unbooked_of_error answer, iff_of_false (not_not_intro (untouched inner)) ?_⟩
    rintro ⟨allowed, -⟩
    exact may allowed

/-- The rows that are gone although the call failed. -/
def unbooked (call : RemovalCall V) : Nat :=
  match call.answer with
  | .ok _ => 0
  | .error _ => call.taken.length

theorem Booked.unbooked_eq (booked : Booked call) : call.unbooked = 0 := by
  rw [unbooked, booked.answer]

theorem Unbooked.unbooked_eq (failed : Unbooked call) : call.unbooked = call.taken.length := by
  obtain ⟨e, answer⟩ := failed.answer
  rw [unbooked, answer]

/-- What the counter misses are the rows of a call that failed. -/
theorem counter_add_unbooked (call : RemovalCall V)
    (distinct : DistinctIds call.before.store.inner.rows) :
    call.after.metrics.deletedRows + call.unbooked =
      call.before.metrics.deletedRows + call.taken.length := by
  rcases call.booked_or_unbooked distinct with ⟨booked, -⟩ | ⟨failed, -⟩
  · rw [booked.counter, booked.unbooked_eq, Nat.add_zero]
  · rw [failed.counter, failed.unbooked_eq]

end RemovalCall

namespace Collector

/-- Removals one after the other, each with the collector that it finds. -/
def removals (c : Collector (FallibleMemory V) V) : List (Int × Filter) → List (RemovalCall V)
  | [] => []
  | (today, f) :: requests => ⟨today, f, c⟩ :: removals (c.delete today f).2 requests

def deleteAll (c : Collector (FallibleMemory V) V) :
    List (Int × Filter) → Collector (FallibleMemory V) V
  | [] => c
  | (today, f) :: requests => deleteAll (c.delete today f).2 requests

/-- How many rows the removals have taken. -/
def rowsTaken (c : Collector (FallibleMemory V) V) (requests : List (Int × Filter)) : Nat :=
  ((c.removals requests).map fun call => call.taken.length).sum

/-- How many of these the calls took that failed. -/
def rowsUnbooked (c : Collector (FallibleMemory V) V) (requests : List (Int × Filter)) : Nat :=
  ((c.removals requests).map RemovalCall.unbooked).sum

/-- The books are exact: between any two calls the counter shows how many rows have been taken, and
of each call that took rows an event tells their number. -/
def Accounted (c : Collector (FallibleMemory V) V) (requests : List (Int × Filter)) : Prop :=
  (∀ made, made <+: requests →
    (c.deleteAll made).metrics.deletedRows = c.metrics.deletedRows + c.rowsTaken made) ∧
  ∀ call ∈ c.removals requests,
    call.taken ≠ [] → .eventsDeleted call.filter call.taken.length ∈ call.logged

variable {c : Collector (FallibleMemory V) V}

theorem removals_append (made later : List (Int × Filter)) :
    c.removals (made ++ later) = c.removals made ++ (c.deleteAll made).removals later := by
  induction made generalizing c with
  | nil => rfl
  | cons request made ih => exact congrArg (_ :: ·) ih

theorem distinctIds_delete (distinct : DistinctIds c.store.inner.rows) (today : Int) (f : Filter) :
    DistinctIds (c.delete today f).2.store.inner.rows :=
  distinct.of_sublist (RemovalCall.mk today f c).rows_after_sublist

theorem distinctIds_of_mem_removals (distinct : DistinctIds c.store.inner.rows)
    {requests : List (Int × Filter)} {call : RemovalCall V} (made : call ∈ c.removals requests) :
    DistinctIds call.before.store.inner.rows := by
  induction requests generalizing c with
  | nil => cases made
  | cons request requests ih =>
    obtain ⟨today, f⟩ := request
    obtain rfl | later := List.mem_cons.mp made
    · exact distinct
    · exact ih (distinctIds_delete distinct today f) later

theorem rows_deleteAll (distinct : DistinctIds c.store.inner.rows)
    (requests : List (Int × Filter)) :
    (c.deleteAll requests).store.inner.rows.length + c.rowsTaken requests =
      c.store.inner.rows.length := by
  induction requests generalizing c with
  | nil => rfl
  | cons request requests ih =>
    obtain ⟨today, f⟩ := request
    have rest := ih (distinctIds_delete distinct today f)
    have first := (RemovalCall.mk today f c).rows_add_taken distinct
    simp only [rowsTaken, removals, deleteAll, List.map_cons, List.sum_cons] at rest ⊢
    simp only [RemovalCall.after] at first
    omega

theorem counter_deleteAll (distinct : DistinctIds c.store.inner.rows)
    (requests : List (Int × Filter)) :
    (c.deleteAll requests).metrics.deletedRows + c.rowsUnbooked requests =
      c.metrics.deletedRows + c.rowsTaken requests := by
  induction requests generalizing c with
  | nil => rfl
  | cons request requests ih =>
    obtain ⟨today, f⟩ := request
    have rest := ih (distinctIds_delete distinct today f)
    have first := (RemovalCall.mk today f c).counter_add_unbooked distinct
    simp only [rowsTaken, rowsUnbooked, removals, deleteAll, List.map_cons, List.sum_cons] at rest ⊢
    simp only [RemovalCall.after] at first
    omega

/-- The counter and the trail are exact if and only if no removal stops midway, at a row that is not
its first. What a removal that fails has taken until then is not counted, and no event tells of it;
any other removal is booked with the number of rows that are gone. -/
theorem accounted_iff_none_stopsMidway (c : Collector (FallibleMemory V) V)
    (distinct : DistinctIds c.store.inner.rows) (requests : List (Int × Filter)) :
    let done := c.deleteAll requests
    (c.Accounted requests ↔ ∀ call ∈ c.removals requests, ¬ call.StopsMidway) ∧
    (∀ call ∈ c.removals requests,
      call.Booked ∨ (call.Unbooked ∧ (call.taken ≠ [] ↔ call.StopsMidway))) ∧
    done.store.inner.rows.length + c.rowsTaken requests = c.store.inner.rows.length ∧
    done.metrics.deletedRows + c.rowsUnbooked requests =
      c.metrics.deletedRows + c.rowsTaken requests := by
  intro done
  have each : ∀ call ∈ c.removals requests, _ := fun call made =>
    call.booked_or_unbooked (distinctIds_of_mem_removals distinct made)
  refine ⟨⟨?_, ?_⟩, ?_, rows_deleteAll distinct requests, counter_deleteAll distinct requests⟩
  · rintro ⟨-, told⟩ call made midway
    rcases each call made with ⟨-, whole⟩ | ⟨failed, took⟩
    · exact whole midway
    · have event := told call made (took.mpr midway)
      rw [failed.trail] at event
      cases event
  · intro none_
    constructor
    · rintro made ⟨later, rfl⟩
      have all_booked : c.rowsUnbooked made = 0 := by
        refine List.sum_eq_zero fun n hn => ?_
        obtain ⟨call, hc, rfl⟩ := List.mem_map.mp hn
        have hc : call ∈ c.removals (made ++ later) := by
          rw [removals_append]
          exact List.mem_append_left _ hc
        rcases each call hc with ⟨booked, -⟩ | ⟨failed, took⟩
        · exact booked.unbooked_eq
        · rw [failed.unbooked_eq, List.length_eq_zero_iff]
          by_contra some_
          exact none_ call hc (took.mp some_)
      have counter := counter_deleteAll distinct made
      rwa [all_booked, Nat.add_zero] at counter
    · intro call made some_
      rcases each call made with ⟨booked, -⟩ | ⟨-, took⟩
      · rw [booked.trail]
        exact List.mem_singleton_self _
      · exact absurd (took.mp some_) (none_ call made)
  · intro call made
    exact (each call made).imp And.left id

/-- The second of two rows cannot be removed; of the first one no counter and no event tells. -/
theorem not_accounted_downAtSecond :
    let requests : List (Int × Filter) := [(5, { traceId := some "t" })]
    let done := downAtSecond.deleteAll requests
    ¬ downAtSecond.Accounted requests ∧ downAtSecond.rowsTaken requests = 1 ∧
      done.metrics.deletedRows = 0 ∧ done.audit = [] := by
  intro requests done
  have taken : downAtSecond.rowsTaken requests = 1 := by decide +kernel
  have counter : done.metrics.deletedRows = 0 := by decide +kernel
  refine ⟨?_, taken, counter, by decide +kernel⟩
  rintro ⟨exact_, -⟩
  have exact_ := exact_ requests (List.prefix_refl requests)
  rw [taken, counter] at exact_
  cases exact_

/-- One row each is selected: the first is removed, the other cannot be. -/
theorem accounted_downAtSecond :
    let requests : List (Int × Filter) :=
      [(5, { traceId := some "t", eventName := some "b" }), (5, { eventName := some "c" })]
    downAtSecond.Accounted requests ∧ downAtSecond.rowsTaken requests = 1 ∧
      (downAtSecond.deleteAll requests).metrics.deletedRows = 1 := by
  intro requests
  have books := accounted_iff_none_stopsMidway downAtSecond (by decide +kernel) requests
  refine ⟨books.1.mpr ?_, by decide +kernel, by decide +kernel⟩
  have single : ∀ call ∈ downAtSecond.removals requests,
      (call.filter.selected call.today call.before.store.inner.rows).length ≤ 1 := by
    decide +kernel
  rintro call made ⟨-, -, k, e, pos, lt, -⟩
  have le := single call made
  omega

end Collector

end TraceTally
