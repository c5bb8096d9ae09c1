import Mathlib.Data.List.Nodup
import TraceTally.Totals

/-!
# Sums in the order of arrival

Of addition nothing is assumed here: a sum is what comes out when values are added one after the
other, from the left. The value of a key is such a sum of what was merged under it, in the order in
which it was merged; other keys, and the order of the keys, have no part in it.
-/

namespace TraceTally

variable {V : Type}

/-- The values under a key, in order. -/
def valuesAt (k : Key) (pairs : List (Key × V)) : List V :=
  (pairs.filter fun p => p.1 = k).map Prod.snd

@[simp] theorem valuesAt_nil (k : Key) : valuesAt k ([] : List (Key × V)) = [] := rfl

@[simp] theorem valuesAt_append (k : Key) (l l' : List (Key × V)) :
    valuesAt k (l ++ l') = valuesAt k l ++ valuesAt k l' := by
  simp [valuesAt]

theorem valuesAt_cons (k : Key) (p : Key × V) (pairs : List (Key × V)) :
    valuesAt k (p :: pairs) = if p.1 = k then p.2 :: valuesAt k pairs else valuesAt k pairs := by
  by_cases same : p.1 = k <;> simp [valuesAt, same]

namespace Totals

theorem get?_eq_some_iff (t : Totals V) {k : Key} {v : V} :
    t.get? k = some v ↔ (k, v) ∈ t.entries := by
  obtain ⟨entries, nodup⟩ := t
  simp only [get?]
  induction entries with
  | nil => simp
  | cons p rest ih =>
    obtain ⟨k', v'⟩ := p
    obtain ⟨new, nodup⟩ := List.nodup_cons.mp nodup
    rw [List.lookup_cons, List.mem_cons, Prod.mk.injEq]
    by_cases same : k = k'
    · subst same
      have elsewhere : (k, v) ∉ rest := fun member => new (List.mem_map.mpr ⟨_, member, rfl⟩)
      simp [elsewhere, eq_comm]
    · have different : (k == k') = false := by simpa using same
      simp only [different, ih nodup, same, false_and, false_or]

/-- The values of a key are found wherever its pair stands. -/
theorem get?_eq_of_perm {t u : Totals V} (perm : t.entries.Perm u.entries) : t.get? = u.get? := by
  funext k
  apply Option.ext
  intro v
  rw [get?_eq_some_iff, get?_eq_some_iff, perm.mem_iff]

/-- Totals with the same values have the same pairs, in some order. -/
theorem entries_perm_of_get?_eq {t u : Totals V} (same : t.get? = u.get?) :
    t.entries.Perm u.entries := by
  apply (List.perm_ext_iff_of_nodup (List.Nodup.of_map _ t.nodup)
    (List.Nodup.of_map _ u.nodup)).mpr
  rintro ⟨k, v⟩
  rw [← get?_eq_some_iff, ← get?_eq_some_iff, same]

/-- One pair per key: the values under a key are its value. -/
theorem valuesAt_entries (t : Totals V) (k : Key) : valuesAt k t.entries = (t.get? k).toList := by
  obtain ⟨entries, nodup⟩ := t
  simp only [get?]
  induction entries with
  | nil => rfl
  | cons p rest ih =>
    obtain ⟨k', v⟩ := p
    obtain ⟨new, nodup⟩ := List.nodup_cons.mp nodup
    rw [valuesAt_cons, List.lookup_cons]
    by_cases same : k' = k
    · subst same
      have none : valuesAt k' rest = [] := by
        rw [valuesAt, List.map_eq_nil_iff, List.filter_eq_nil_iff]
        intro q hq
        rw [decide_eq_true_eq]
        rintro rfl
        exact new (List.mem_map.mpr ⟨q, hq, rfl⟩)
      simp [none]
    · have different : (k == k') = false := by simpa using Ne.symm same
      simp only [same, if_false, different, ih nodup]

end Totals

variable [Add V]

/-- A value is added to a sum, or is the first. -/
def addNext : Option V → V → Option V
  | none, v => some v
  | some sum, v => some (sum + v)

/-- The values added one after the other; no values have no sum. -/
def leftSum (values : List V) : Option V := values.foldl addNext none

theorem leftSum_append_singleton (values : List V) (v : V) :
    leftSum (values ++ [v]) = addNext (leftSum values) v := by
  rw [leftSum, List.foldl_append]
  rfl

theorem leftSum_eq_none_iff {values : List V} : leftSum values = none ↔ values = [] := by
  refine ⟨fun none => ?_, fun empty => by rw [empty]; rfl⟩
  rcases List.eq_nil_or_concat values with empty | ⟨before, v, rfl⟩
  · exact empty
  · rw [List.concat_eq_append, leftSum_append_singleton] at none
    cases sum : leftSum before <;> simp [sum, addNext] at none

/-- If addition is exact, the order does not show. -/
theorem leftSum_perm [Std.Associative (α := V) (· + ·)] [Std.Commutative (α := V) (· + ·)]
    {values values' : List V} (perm : values.Perm values') : leftSum values = leftSum values' := by
  apply perm.foldl_eq'
  intro x _ y _ sum
  cases sum with
  | none => exact congrArg some (Std.Commutative.comm x y)
  | some sum =>
    refine congrArg some ?_
    calc
      sum + x + y = sum + (x + y) := Std.Associative.assoc sum x y
      _ = sum + (y + x) := congrArg (sum + ·) (Std.Commutative.comm x y)
      _ = sum + y + x := (Std.Associative.assoc sum y x).symm

namespace Totals

theorem get?_merge (t : Totals V) (k k' : Key) (v : V) :
    (t.merge k v).get? k' = if k = k' then addNext (t.get? k') v else t.get? k' := by
  obtain ⟨entries, nodup⟩ := t
  simp only [get?, merge]
  clear nodup
  induction entries with
  | nil =>
    by_cases same : k = k'
    · simp [mergePair, same, addNext]
    · have different : (k' == k) = false := by simpa using Ne.symm same
      simp [mergePair, same, List.lookup_cons, different]
  | cons p rest ih =>
    obtain ⟨first, value⟩ := p
    by_cases here : first = k
    · subst here
      by_cases same : first = k'
      · simp [mergePair, same, addNext]
      · have different : (k' == first) = false := by simpa using Ne.symm same
        simp [mergePair, same, List.lookup_cons, different]
    · by_cases found : k' = first
      · subst found
        simp [mergePair, here, Ne.symm here]
      · have different : (k' == first) = false := by simpa using found
        simp only [mergePair, here, if_false, List.lookup_cons, different, ih]

theorem get?_mergeAll (t : Totals V) (pairs : List (Key × V)) (k : Key) :
    (t.mergeAll pairs).get? k = (valuesAt k pairs).foldl addNext (t.get? k) := by
  induction pairs generalizing t with
  | nil => rfl
  | cons p pairs ih =>
    have first : (t.mergeAll (p :: pairs)).get? k = ((t.merge p.1 p.2).mergeAll pairs).get? k := rfl
    rw [first, ih, get?_merge, valuesAt_cons]
    split <;> rfl

/-- What is merged into nothing gives every key the sum of its values. -/
theorem get?_mergeAll_empty (pairs : List (Key × V)) (k : Key) :
    (empty.mergeAll pairs).get? k = leftSum (valuesAt k pairs) :=
  get?_mergeAll empty pairs k

end Totals

end TraceTally
