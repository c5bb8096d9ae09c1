import Mathlib.Algebra.BigOperators.Group.List.Basic
import Mathlib.Algebra.Group.Pi.Lemmas
import Mathlib.Algebra.Group.WithOne.Basic
import TraceTally.Totals

/-!
# What pairs add up to

Merging, storing and putting back all move pairs of a key and a value about. Read addition as exact,
in any commutative monoid: then what such a move keeps is the tally of the pairs, under each key the
sum of its values, or nothing (`0`, which is not the sum zero) if no pair has that key. The tally of
two lists together is the sum of their tallies, so that what moves from one place to another can be
followed by adding tallies up.
-/

namespace TraceTally

variable {V : Type}

/-- The pairs that merging an entry contributes. -/
def Entry.pairs (e : Entry V) : List (Key × V) :=
  e.events.map fun event => (Key.ofEvent e event, event.value)

variable [AddCommMonoid V]

/-- The sum of the values under a key. -/
def total (k : Key) (pairs : List (Key × V)) : V :=
  ((pairs.filter fun p => p.1 = k).map Prod.snd).sum

@[simp] theorem total_nil (k : Key) : total k ([] : List (Key × V)) = 0 := rfl

theorem total_cons (k : Key) (p : Key × V) (pairs : List (Key × V)) :
    total k (p :: pairs) = (if p.1 = k then p.2 else 0) + total k pairs := by
  by_cases h : p.1 = k <;> simp [total, h]

@[simp] theorem total_append (k : Key) (l l' : List (Key × V)) :
    total k (l ++ l') = total k l + total k l' := by
  simp [total]

theorem total_eq_zero {k : Key} {pairs : List (Key × V)} (h : k ∉ pairs.map Prod.fst) :
    total k pairs = 0 := by
  induction pairs with
  | nil => rfl
  | cons p pairs ih =>
    simp only [List.map_cons, List.mem_cons, not_or] at h
    rw [total_cons, if_neg (Ne.symm h.1), ih h.2, add_zero]

/-- The sum under each key, and `0` under a key that no pair has. -/
def tally (pairs : List (Key × V)) : Key → WithZero V :=
  (pairs.map fun p => Pi.single p.1 (p.2 : WithZero V)).sum

@[simp] theorem tally_nil : tally ([] : List (Key × V)) = 0 := rfl

@[simp] theorem tally_cons (p : Key × V) (pairs : List (Key × V)) :
    tally (p :: pairs) = Pi.single p.1 (p.2 : WithZero V) + tally pairs := by
  simp [tally]

@[simp] theorem tally_append (l l' : List (Key × V)) : tally (l ++ l') = tally l + tally l' := by
  simp [tally]

/-- Forgets whether a sum is absent or zero. -/
def worth : WithZero V →+ V := WithZero.lift (AddHom.id V)

@[simp] theorem worth_coe (v : V) : worth (v : WithZero V) = v := WithZero.lift_coe _ v

theorem worth_tally (k : Key) (pairs : List (Key × V)) : worth (tally pairs k) = total k pairs := by
  induction pairs with
  | nil => simp
  | cons p pairs ih =>
    rw [tally_cons, total_cons, Pi.add_apply, map_add, ih]
    by_cases h : p.1 = k
    · subst h
      simp
    · simp [h]

theorem total_eq_of_tally_eq {l l' : List (Key × V)} (h : tally l = tally l') (k : Key) :
    total k l = total k l' := by
  rw [← worth_tally, ← worth_tally, h]

theorem coe_add_ne_zero (v : V) (w : WithZero V) : (v : WithZero V) + w ≠ 0 := by
  induction w with
  | zero => simp
  | coe w => rw [← WithZero.coe_add]; exact WithZero.coe_ne_zero

theorem tally_eq_zero_iff {k : Key} {pairs : List (Key × V)} :
    tally pairs k = 0 ↔ k ∉ pairs.map Prod.fst := by
  induction pairs with
  | nil => simp
  | cons p pairs ih =>
    rw [tally_cons, Pi.add_apply]
    by_cases h : p.1 = k
    · subst h
      simp [coe_add_ne_zero]
    · simp only [Pi.single_eq_of_ne (Ne.symm h), zero_add, ih, List.map_cons, List.mem_cons,
        Ne.symm h, false_or]

theorem mem_keys_iff_of_tally_eq {l l' : List (Key × V)} (h : tally l = tally l') (k : Key) :
    k ∈ l.map Prod.fst ↔ k ∈ l'.map Prod.fst := by
  rw [← not_iff_not, ← tally_eq_zero_iff, ← tally_eq_zero_iff, h]

theorem tally_mergePair (k : Key) (v : V) (l : List (Key × V)) :
    tally (mergePair k v l) = tally l + Pi.single k (v : WithZero V) := by
  induction l with
  | nil => simp [mergePair]
  | cons p rest ih =>
    obtain ⟨k', v'⟩ := p
    by_cases h : k' = k
    · subst h
      simp only [mergePair, if_true, tally_cons, WithZero.coe_add, Pi.single_add]
      rw [add_right_comm]
    · simp only [mergePair, h, if_false, tally_cons, ih, add_assoc]

omit [AddCommMonoid V] in
theorem mergePair_of_notMem [Add V] {k : Key} {v : V} {l : List (Key × V)}
    (h : k ∉ l.map Prod.fst) : mergePair k v l = l ++ [(k, v)] := by
  induction l with
  | nil => rfl
  | cons p rest ih =>
    obtain ⟨k', v'⟩ := p
    simp only [List.map_cons, List.mem_cons, not_or] at h
    simp only [mergePair, if_neg (Ne.symm h.1), ih h.2, List.cons_append]

namespace Totals

@[simp] theorem mergeAll_nil (t : Totals V) : t.mergeAll [] = t := rfl

@[simp] theorem mergeAll_cons (t : Totals V) (p : Key × V) (pairs : List (Key × V)) :
    t.mergeAll (p :: pairs) = (t.merge p.1 p.2).mergeAll pairs := rfl

theorem mergeEntry_eq (t : Totals V) (e : Entry V) : t.mergeEntry e = t.mergeAll e.pairs := rfl

theorem tally_merge (t : Totals V) (k : Key) (v : V) :
    tally (t.merge k v).entries = tally t.entries + Pi.single k (v : WithZero V) :=
  tally_mergePair k v t.entries

theorem tally_mergeAll (t : Totals V) (pairs : List (Key × V)) :
    tally (t.mergeAll pairs).entries = tally t.entries + tally pairs := by
  induction pairs generalizing t with
  | nil => simp
  | cons p pairs ih => rw [mergeAll_cons, ih, tally_merge, tally_cons, add_assoc]

theorem total_entries (t : Totals V) (k : Key) : total k t.entries = (t.get? k).getD 0 := by
  obtain ⟨entries, nodup⟩ := t
  simp only [get?]
  induction entries with
  | nil => rfl
  | cons p rest ih =>
    obtain ⟨k', v⟩ := p
    simp only [List.map_cons, List.nodup_cons] at nodup
    rw [total_cons, List.lookup_cons]
    by_cases h : k' = k
    · subst h
      simp [total_eq_zero nodup.1]
    · have different : (k == k') = false := by simpa using Ne.symm h
      simp only [h, if_false, zero_add, different, ih nodup.2]

omit [AddCommMonoid V] in
/-- Pairs whose keys are new are appended as they are, without an addition. -/
theorem entries_mergeAll_of_disjoint [Add V] (t : Totals V) {pairs : List (Key × V)}
    (nodup : (pairs.map Prod.fst).Nodup)
    (new : ∀ p ∈ pairs, p.1 ∉ t.entries.map Prod.fst) :
    (t.mergeAll pairs).entries = t.entries ++ pairs := by
  induction pairs generalizing t with
  | nil => simp [mergeAll]
  | cons p pairs ih =>
    obtain ⟨k, v⟩ := p
    simp only [List.map_cons, List.nodup_cons] at nodup
    have appended : (t.merge k v).entries = t.entries ++ [(k, v)] :=
      mergePair_of_notMem (new (k, v) (by simp))
    change ((t.merge k v).mergeAll pairs).entries = _
    rw [ih (t.merge k v) nodup.2, appended, List.append_assoc, List.singleton_append]
    intro q hq
    rw [appended]
    simp only [List.map_append, List.mem_append, List.map_cons, List.map_nil, List.mem_singleton,
      not_or]
    refine ⟨new q (List.mem_cons_of_mem _ hq), ?_⟩
    rintro rfl
    exact nodup.1 (List.mem_map_of_mem hq)

omit [AddCommMonoid V] in
/-- Totals that are put back where nothing was added meanwhile are what they were. -/
theorem absorb_empty [Add V] (t : Totals V) : empty.absorb t = t := by
  have same : (empty.absorb t).entries = t.entries :=
    entries_mergeAll_of_disjoint empty t.nodup (by simp [empty])
  cases h : empty.absorb t
  cases t
  simp_all

end Totals

end TraceTally
