import Mathlib.Algebra.BigOperators.Group.Multiset.Basic
import Mathlib.Algebra.Order.Group.Multiset
import TraceTally.Proofs.Conservation

/-!
# Counting every event once

Let a value be a multiset of events, and an event the multiset of itself alone. Then what is
buffered and stored under a key says which events were counted there, and how often.
-/

namespace TraceTally

variable {ι : Type}

theorem total_le_sum (k : Key) (pairs : List (Key × Multiset ι)) :
    total k pairs ≤ (pairs.map Prod.snd).sum := by
  induction pairs with
  | nil => exact le_rfl
  | cons p pairs ih =>
    rw [total_cons, List.map_cons, List.sum_cons]
    by_cases h : p.1 = k
    · rw [if_pos h]
      exact add_le_add le_rfl ih
    · rw [if_neg h, zero_add]
      exact ih.trans (Multiset.le_add_left _ _)

theorem le_total_of_mem {p : Key × Multiset ι} {pairs : List (Key × Multiset ι)} (h : p ∈ pairs) :
    p.2 ≤ total p.1 pairs := by
  obtain ⟨before, after, rfl⟩ := List.append_of_mem h
  rw [total_append, total_cons, if_pos rfl]
  exact (Multiset.le_add_right _ _).trans (Multiset.le_add_left _ _)

theorem total_le_of_sublist {l l' : List (Key × Multiset ι)} (h : l.Sublist l') (k : Key) :
    total k l ≤ total k l' := by
  induction h with
  | slnil => exact le_rfl
  | cons p _ ih =>
    rw [total_cons]
    exact ih.trans (Multiset.le_add_left _ _)
  | cons_cons p _ ih =>
    rw [total_cons, total_cons]
    exact add_le_add le_rfl ih

theorem total_le_flatMap {α : Type} {a : α} {l : List α} (h : a ∈ l) (k : Key)
    (f : α → List (Key × Multiset ι)) : total k (f a) ≤ total k (l.flatMap f) := by
  obtain ⟨before, after, rfl⟩ := List.append_of_mem h
  rw [List.flatMap_append, List.flatMap_cons, total_append, total_append]
  exact (Multiset.le_add_right _ _).trans (Multiset.le_add_left _ _)

/-- Every pair carries an event of its own. -/
structure Labelled (pairs : List (Key × Multiset ι)) (events : List ι) : Prop where
  distinct : events.Nodup
  each : pairs.map Prod.snd = events.map fun x => {x}

namespace Labelled

variable {pairs : List (Key × Multiset ι)} {events : List ι}

theorem nodup_total (labelled : Labelled pairs events) (k : Key) : (total k pairs).Nodup := by
  have all : (pairs.map Prod.snd).sum = (events : Multiset ι) := by
    rw [labelled.each, ← Multiset.sum_coe, ← Multiset.map_coe, Multiset.sum_map_singleton]
  apply Multiset.nodup_of_le (total_le_sum k pairs)
  rw [all]
  exact Multiset.coe_nodup.mpr labelled.distinct

theorem eq_singleton (labelled : Labelled pairs events) {p : Key × Multiset ι} (h : p ∈ pairs) :
    ∃ x, p.2 = {x} := by
  have value : p.2 ∈ events.map fun x => ({x} : Multiset ι) := by
    rw [← labelled.each]
    exact List.mem_map_of_mem h
  obtain ⟨x, -, single⟩ := List.mem_map.mp value
  exact ⟨x, single.symm⟩

end Labelled

/-- Totals that are not empty and are sums of labelled pairs hold an event that was merged. -/
theorem History.Explains.exists_mem {h : History (Multiset ι)} {t : Totals (Multiset ι)}
    {events : List ι} (explains : h.Explains t) (labelled : Labelled h.merged events)
    (nonempty : t.entries ≠ []) :
    ∃ k x, x ∈ total k t.entries ∧ x ∈ total k h.merged := by
  obtain ⟨parts, sublist, sums⟩ := explains
  obtain ⟨p, hp⟩ := List.exists_mem_of_ne_nil _ nonempty
  obtain ⟨q, hq, key⟩ := List.mem_map.mp
    ((mem_keys_iff_of_tally_eq sums p.1).mp (List.mem_map_of_mem hp))
  obtain ⟨x, single⟩ := labelled.eq_singleton (sublist.subset hq)
  have carried : x ∈ q.2 := by rw [single]; exact Multiset.mem_singleton_self x
  refine ⟨q.1, x, ?_, ?_⟩
  · rw [total_eq_of_tally_eq sums]
    exact Multiset.mem_of_le (le_total_of_mem hq) carried
  · exact Multiset.mem_of_le (le_total_of_mem (sublist.subset hq)) carried

/-- No event is counted twice, unless some flush under `requeue` failed after its batch was stored;
and then one is. -/
theorem nodup_counted_iff (policy : BufferPolicy) (clock : Clock) (source : Nat → RowId)
    (plan : FaultPoint → FaultPlan) (ops : List (Operation (Multiset ι)))
    (injective : Function.Injective source)
    (spares : clock.Spares policy.lifetime
      (run (Timed.fresh policy clock source plan) ops).clock.now)
    {events : List ι}
    (labelled : Labelled (history (Timed.fresh policy clock source plan) ops).merged events) :
    let s := run (Timed.fresh policy clock source plan) ops
    (∀ k, ((s.collector.totals.get? k).getD 0 +
        total k s.collector.store.inner.pairs).Nodup) ↔
      ∀ r ∈ (history (Timed.fresh policy clock source plan) ops).flushes,
        r.Unacknowledged → policy.retry.onExhausted = .discard := by
  intro s
  set h := history (Timed.fresh policy clock source plan) ops with history_eq
  have accounts : Accounts policy s.clock.now (∅ ++ h) s :=
    (Accounts.fresh injective spares).run le_rfl
  rw [History.empty_append] at accounts
  have sums : ∀ k, total k h.merged + total k (h.doubled policy.retry.onExhausted) =
      (s.collector.totals.get? k).getD 0 + total k s.collector.store.inner.pairs +
        total k (h.lost policy.retry.onExhausted) := by
    intro k
    have balance := accounts.balance
    rw [← tally_append, ← tally_append, ← tally_append] at balance
    have sum := total_eq_of_tally_eq balance k
    rwa [total_append, total_append, total_append, Totals.total_entries] at sum
  constructor
  · intro nodup r hr unacknowledged
    cases requeue : policy.retry.onExhausted with
    | discard => rfl
    | requeue =>
      obtain ⟨failed, stored⟩ := unacknowledged
      obtain ⟨k, x, taken, merged⟩ :=
        (accounts.taken r hr).exists_mem labelled (accounts.nonempty r hr stored)
      have doubled : x ∈ total k (h.doubled .requeue) := by
        apply Multiset.mem_of_le (total_le_flatMap hr k _)
        rwa [FlushReport.doubled, if_pos ⟨rfl, failed, stored⟩]
      have sum := sums k
      rw [requeue, History.lost_requeue, total_nil, add_zero] at sum
      have twice : x ∈ total k h.merged ∧ x ∈ total k (h.doubled .requeue) := ⟨merged, doubled⟩
      have disjoint := (Multiset.nodup_add.mp (sum ▸ nodup k)).2.2
      exact absurd twice.2 (Multiset.disjoint_left.mp disjoint twice.1)
  · intro acknowledged k
    have sum := sums k
    rw [History.doubled_eq_nil acknowledged, total_nil, add_zero] at sum
    refine Multiset.nodup_of_le ?_ (labelled.nodup_total k)
    rw [sum]
    exact Multiset.le_add_right _ _

/-- A first flush is stored but its answer is lost; a second one would store the event again. -/
theorem counted_twice_after_lost_answer :
    let policy : BufferPolicy := ⟨9, .ofSeconds 60, .ofSeconds 3600, ⟨1, .ofMillis 100, .requeue⟩⟩
    let clock : Clock := ⟨⟨0⟩, fun _ => 0⟩
    let plan : FaultPoint → FaultPlan := fun point =>
      if point = .acknowledge then [some (.storeWriteFailed "lost")] else []
    let ops : List (Operation (Multiset Nat)) :=
      [.write ⟨"o", "t", [⟨"a", {0}, "u"⟩]⟩, .flush .manual]
    let s := run (Timed.fresh policy clock id plan) ops
    let k : Key := ⟨"o", "t", "a", "u"⟩
    (history (Timed.fresh policy clock id plan) ops).merged = [(k, {0})] ∧
      (s.collector.totals.get? k).getD 0 = {0} ∧ total k s.collector.store.inner.pairs = {0} ∧
      ¬ ((s.collector.totals.get? k).getD 0 + total k s.collector.store.inner.pairs).Nodup := by
  decide +kernel

/-- With a second attempt the same loss of an answer does no harm. -/
theorem counted_once_when_retried :
    let policy : BufferPolicy := ⟨9, .ofSeconds 60, .ofSeconds 3600, ⟨2, .ofMillis 100, .requeue⟩⟩
    let clock : Clock := ⟨⟨0⟩, fun _ => 0⟩
    let plan : FaultPoint → FaultPlan := fun point =>
      if point = .acknowledge then [some (.storeWriteFailed "lost")] else []
    let ops : List (Operation (Multiset Nat)) :=
      [.write ⟨"o", "t", [⟨"a", {0}, "u"⟩]⟩, .flush .manual]
    let s := run (Timed.fresh policy clock id plan) ops
    ∀ k, ((s.collector.totals.get? k).getD 0 + total k s.collector.store.inner.pairs).Nodup :=
  (nodup_counted_iff _ _ _ _ _ Function.injective_id (Clock.spares_of_constant (by decide) _)
    ⟨List.nodup_singleton 0, by decide +kernel⟩).mpr (by decide +kernel)

end TraceTally
