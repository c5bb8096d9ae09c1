import Mathlib.Algebra.BigOperators.Pi
import Mathlib.Data.Finset.Dedup
import TraceTally.Collector.Query
import TraceTally.Proofs.Batch
import TraceTally.Proofs.Tally

/-!
# What a query sums up

A query keeps the rows that match its filter and sums them up under keys that forget some fields.
Its answer is determined by what the stored rows add up to under each key; how that is spread over
rows does not show.
-/

namespace TraceTally

variable {V : Type} [AddCommMonoid V]

def sumAt (k : Key) (w : WithZero V) : Key → WithZero V := Pi.single k w

theorem tally_reindex (keep : Key → Bool) (rename : Key → Key) {pairs : List (Key × V)}
    {keys : Finset Key} (h : ∀ p ∈ pairs, p.1 ∈ keys) :
    tally ((pairs.filter fun p => keep p.1).map fun p => (rename p.1, p.2)) =
      ∑ k ∈ keys, if keep k then sumAt (rename k) (tally pairs k) else 0 := by
  induction pairs with
  | nil => simp [sumAt]
  | cons p pairs ih =>
    have first : (∑ k ∈ keys, if keep k then sumAt (rename k) (sumAt p.1 (p.2 : WithZero V) k)
        else 0) = if keep p.1 then sumAt (rename p.1) (p.2 : WithZero V) else 0 := by
      rw [Finset.sum_eq_single p.1]
      · simp [sumAt]
      · intro k _ other
        simp [sumAt, Pi.single_eq_of_ne other]
      · intro absent
        exact absurd (h p List.mem_cons_self) absent
    have split : ∀ k, (if keep k then sumAt (rename k) (tally (p :: pairs) k) else 0) =
        (if keep k then sumAt (rename k) (sumAt p.1 (p.2 : WithZero V) k) else 0) +
          if keep k then sumAt (rename k) (tally pairs k) else 0 := by
      intro k
      by_cases kept : keep k = true
      · simp only [kept, if_true, tally_cons, Pi.add_apply, sumAt, Pi.single_add]
      · simp [kept]
    rw [Finset.sum_congr rfl fun k _ => split k, Finset.sum_add_distrib, first,
      ← ih fun q hq => h q (List.mem_cons_of_mem _ hq)]
    by_cases kept : keep p.1 = true
    · simp [kept, sumAt]
    · simp [kept]

/-- Dropping and renaming keys depends on the sums only. -/
theorem tally_reindex_congr (keep : Key → Bool) (rename : Key → Key) {l l' : List (Key × V)}
    (h : tally l = tally l') :
    tally ((l.filter fun p => keep p.1).map fun p => (rename p.1, p.2)) =
      tally ((l'.filter fun p => keep p.1).map fun p => (rename p.1, p.2)) := by
  have member : ∀ pairs : List (Key × V), (∀ p ∈ pairs, p ∈ l ++ l') →
      ∀ p ∈ pairs, p.1 ∈ ((l ++ l').map Prod.fst).toFinset := by
    intro pairs sub p hp
    exact List.mem_toFinset.mpr (List.mem_map_of_mem (sub p hp))
  rw [tally_reindex keep rename (member l fun p hp => List.mem_append_left _ hp),
    tally_reindex keep rename (member l' fun p hp => List.mem_append_right _ hp), h]

namespace Totals

theorem mem_entries_iff (t : Totals V) (p : Key × V) :
    p ∈ t.entries ↔ tally t.entries p.1 = (p.2 : WithZero V) := by
  obtain ⟨entries, nodup⟩ := t
  induction entries with
  | nil => simp
  | cons q rest ih =>
    obtain ⟨new, nodup⟩ := List.nodup_cons.mp nodup
    rw [List.mem_cons, ih nodup, tally_cons, Pi.add_apply]
    by_cases same : q.1 = p.1
    · have absent : tally rest p.1 = 0 := tally_eq_zero_iff.mpr (same ▸ new)
      rw [same, Pi.single_eq_same, absent, add_zero, WithZero.coe_inj]
      constructor
      · rintro (rfl | none)
        · rfl
        · cases none
      · intro value
        exact .inl (Prod.ext same.symm value.symm)
    · rw [Pi.single_eq_of_ne (Ne.symm same), zero_add, or_iff_right]
      rintro rfl
      exact same rfl

/-- Totals are determined by their sums, up to the order of their keys. -/
theorem entries_perm {t u : Totals V} (h : tally t.entries = tally u.entries) :
    t.entries.Perm u.entries := by
  apply (List.perm_ext_iff_of_nodup (.of_map _ t.nodup) (.of_map _ u.nodup)).mpr
  intro p
  rw [mem_entries_iff, mem_entries_iff, h]

end Totals

omit [AddCommMonoid V] in
theorem sortedEvents_perm {l l' : List (Key × V)} (h : l.Perm l') :
    (sortedEvents l).Perm (sortedEvents l') :=
  (List.mergeSort_perm _ _).trans ((h.map _).trans (List.mergeSort_perm _ _).symm)

/-- Whether the predicate selects the rows of a key. -/
def Predicate.holdsAt (p : Predicate) (k : Key) : Bool := p.holds ⟨k.traceId, k.origin, k.name⟩

namespace Filter

/-- The key under which a query sums up the rows of a key. -/
def rename (f : Filter) (k : Key) : Key := ⟨f.origin.getD "", f.traceId.getD "", k.name, k.unit⟩

/-- Queries on two stores answer alike if what they hold is live and adds up to the same. -/
theorem events_perm {now now' : Int} {s s' : MemoryStore V} (f : Filter) (p : Predicate)
    (live : ∀ r ∈ s.rows, r.isLive now = true) (live' : ∀ r ∈ s'.rows, r.isLive now' = true)
    (same : tally s.pairs = tally s'.pairs) :
    (f.aggregate (s.select now p)).events.Perm (f.aggregate (s'.select now' p)).events := by
  have pairs : ∀ (now : Int) (s : MemoryStore V), (∀ r ∈ s.rows, r.isLive now = true) →
      (s.select now p).map (fun row => (f.keyOf row, row.value)) =
        (s.pairs.filter fun q => p.holdsAt q.1).map fun q => (f.rename q.1, q.2) := by
    intro now s live
    have selected : (s.rows.filter fun r => r.isLive now && p.holds r.row) =
        s.rows.filter fun r => p.holds r.row :=
      List.filter_congr fun r hr => by rw [live r hr, Bool.true_and]
    rw [MemoryStore.select, selected, MemoryStore.pairs, List.filter_map, List.map_map,
      List.map_map]
    rfl
  refine sortedEvents_perm (Totals.entries_perm ?_)
  rw [aggregate, aggregate, Totals.tally_mergeAll, Totals.tally_mergeAll, pairs now s live,
    pairs now' s' live', tally_reindex_congr p.holdsAt f.rename same]

end Filter

section Order

variable {V : Type} [Add V] {f : Filter}

/-- A query that goes through its totals in the given order. -/
def queryBy {σ : Type} [EventStore σ V] (arrange : Totals V → List (Key × V)) (today : Int)
    (f : Filter) (s : σ) : Except Failure (List (Event V)) × σ :=
  match f.toPredicate with
  | .error e => (.error e, s)
  | .ok p =>
    match EventStore.scan today p s with
    | (.error e, s) => (.error e, s)
    | (.ok rows, s) => (.ok (sortedEvents (arrange (f.aggregate rows))), s)

theorem queryBy_entries {σ : Type} [EventStore σ V] (today : Int) (f : Filter) (s : σ) :
    queryBy Totals.entries today f s = query today f s := by
  unfold queryBy query
  cases f.toPredicate with
  | error e => rfl
  | ok p =>
    dsimp only
    rcases EventStore.scan today p s with ⟨_ | rows, s⟩ <;> rfl

theorem queryBy_of_error {e : Failure} (invalid : f.toPredicate = .error e)
    (arrange : Totals V → List (Key × V)) (today : Int) (s : FallibleMemory V) :
    queryBy arrange today f s = (.error e, s) := by
  rw [queryBy, invalid]

/-- A valid query on a fallible memory fails as its scan does, or answers as the memory does. -/
theorem queryBy_of_ok {p : Predicate} (valid : f.toPredicate = .ok p)
    (arrange : Totals V → List (Key × V)) (today : Int) (s : FallibleMemory V) :
    queryBy arrange today f s = (match (s.consume .scan).1 with
      | some e => .error e
      | none => .ok (sortedEvents (arrange (f.aggregate (s.inner.select today p)))),
        (s.consume .scan).2) := by
  have inner := s.inner_consume .scan
  simp only [queryBy, valid, EventStore.scan, FaultyStore.guarded]
  cases first : s.consume .scan with
  | mk fault s₁ =>
    rw [first] at inner
    cases fault with
    | some e => rfl
    | none =>
      dsimp only at inner ⊢
      rw [← inner]

theorem query_fallible {today : Int} {s : FallibleMemory V} {answer : List (Event V)}
    (h : (query today f s).1 = .ok answer) :
    ∃ p, f.toPredicate = .ok p ∧ answer = (f.aggregate (s.inner.select today p)).events := by
  rw [← queryBy_entries] at h
  cases valid : f.toPredicate with
  | error e =>
    rw [queryBy_of_error valid] at h
    cases h
  | ok p =>
    rw [queryBy_of_ok valid] at h
    cases fault : (s.consume .scan).1 with
    | some e =>
      rw [fault] at h
      cases h
    | none =>
      rw [fault] at h
      exact ⟨p, rfl, (Except.ok.inj h).symm⟩

end Order

end TraceTally
