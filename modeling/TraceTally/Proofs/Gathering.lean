import Mathlib.Data.List.Dedup
import TraceTally.Proofs.Lockstep
import TraceTally.Proofs.Tally

/-!
# How contributions come together

Contributions reach totals one by one, entry by entry, or by way of other totals that are absorbed. If
addition is exact, what they add up to is all that can be seen afterwards, so that neither their order
nor the way they came makes a difference. Absorbing adds at most one value to each key, and so asks
nothing of addition.
-/

namespace TraceTally

variable {V : Type}

/-- The totals have come from the contributions, taken in this order. Totals may be gone through in any
order when they are absorbed. -/
inductive Gathered [Add V] : List (Key × V) → Totals V → Prop where
  | empty : Gathered [] .empty
  | merge {l : List (Key × V)} {t : Totals V} (gathered : Gathered l t) (k : Key) (v : V) :
      Gathered (l ++ [(k, v)]) (t.merge k v)
  | mergeEntry {l : List (Key × V)} {t : Totals V} (gathered : Gathered l t) (e : Entry V) :
      Gathered (l ++ e.pairs) (t.mergeEntry e)
  | absorb {l l' : List (Key × V)} {t u : Totals V} (gathered : Gathered l t)
      (gathered' : Gathered l' u) : Gathered (l ++ l') (t.absorb u)
  | reorder {l : List (Key × V)} {t t' : Totals V} (gathered : Gathered l t)
      (perm : t.entries.Perm t'.entries) : Gathered l t'

theorem tally_perm [AddCommMonoid V] {l l' : List (Key × V)} (perm : l.Perm l') :
    tally l = tally l' :=
  (perm.map _).sum_eq

/-- Totals hold what they add up to. -/
theorem Totals.get?_of_tally_eq [AddCommMonoid V] {t : Totals V} {pairs : List (Key × V)}
    (same : tally t.entries = tally pairs) (k : Key) :
    t.get? k = if k ∈ pairs.map Prod.fst then some (total k pairs) else none := by
  have keys := mem_keys_iff_of_tally_eq same k
  have sum := total_eq_of_tally_eq same k
  rw [total_entries] at sum
  split
  · rename_i contributed
    obtain ⟨⟨_, v⟩, member, rfl⟩ := List.mem_map.mp (keys.mpr contributed)
    have found := t.get?_eq_some_iff.mpr member
    rw [found] at sum ⊢
    exact congrArg some sum
  · rename_i missing
    cases found : t.get? k with
    | none => rfl
    | some v =>
      exact absurd (keys.mp (List.mem_map.mpr ⟨_, t.get?_eq_some_iff.mp found, rfl⟩)) missing

namespace Gathered

variable [AddCommMonoid V] {l l' : List (Key × V)} {t t' : Totals V}

theorem tally_entries (gathered : Gathered l t) : tally t.entries = tally l := by
  induction gathered with
  | empty => rfl
  | merge _ k v ih => rw [Totals.tally_merge, ih, tally_append, tally_cons, tally_nil, add_zero]
  | mergeEntry _ e ih => rw [Totals.mergeEntry_eq, Totals.tally_mergeAll, ih, tally_append]
  | absorb _ _ ih ih' => rw [Totals.absorb, Totals.tally_mergeAll, ih, ih', tally_append]
  | reorder _ perm ih => rw [← ih, tally_perm perm]

/-- Going through the totals yields each key that was contributed, once. -/
theorem keys_perm (gathered : Gathered l t) :
    (t.entries.map Prod.fst).Perm (l.map Prod.fst).dedup :=
  (List.perm_ext_iff_of_nodup t.nodup (List.nodup_dedup _)).mpr fun k =>
    (mem_keys_iff_of_tally_eq gathered.tally_entries k).trans List.mem_dedup.symm

theorem entries_perm (gathered : Gathered l t) (gathered' : Gathered l' t') (perm : l.Perm l') :
    t.entries.Perm t'.entries := by
  apply Totals.entries_perm_of_get?_eq
  funext k
  have same : tally t'.entries = tally l := gathered'.tally_entries.trans (tally_perm perm).symm
  rw [Totals.get?_of_tally_eq gathered.tally_entries, Totals.get?_of_tally_eq same]

omit [AddCommMonoid V] in
theorem mergeAll [Add V] (gathered : Gathered l t) (pairs : List (Key × V)) :
    Gathered (l ++ pairs) (t.mergeAll pairs) := by
  induction pairs generalizing l t with
  | nil => rwa [List.append_nil]
  | cons p pairs ih =>
    have later := ih (gathered.merge p.1 p.2)
    rwa [List.append_assoc] at later

end Gathered

/-- If addition is exact, totals into which the same contributions have come are the same, in whatever
order and by whatever way they came: they have the keys that were contributed, each once, and under each
key the sum of its contributions. Of no addition at all is anything assumed for absorbing: the order in
which totals are gone through makes no difference to what absorbs them. -/
theorem gathered_alike [AddCommMonoid V] {l l' : List (Key × V)} {t t' : Totals V}
    (gathered : Gathered l t) (gathered' : Gathered l' t') (perm : l.Perm l') :
    t.entries.Perm t'.entries ∧
    (t.entries.map Prod.fst).Perm (l.map Prod.fst).dedup ∧
    t.size = (l.map Prod.fst).dedup.length ∧
    (∀ k, t.get? k = if k ∈ l.map Prod.fst then some (total k l) else none) ∧
    ∀ {W : Type} [Add W] (t u u' : Totals W), u.entries.Perm u'.entries →
      (t.absorb u).entries.Perm (t.absorb u').entries ∧
        ∀ k, (t.absorb u).get? k = (u.get? k).toList.foldl addNext (t.get? k) := by
  refine ⟨gathered.entries_perm gathered' perm, gathered.keys_perm, ?_,
    Totals.get?_of_tally_eq gathered.tally_entries, ?_⟩
  · rw [← gathered.keys_perm.length_eq, List.length_map]
    rfl
  · exact fun t u u' perm' => ⟨Totals.absorb_perm (.refl _) perm', t.get?_absorb u⟩

/-- Four contributions to two keys come one by one, and by way of an entry and of totals that are
absorbed; those of one key cancel out, and the key stays. -/
theorem gathered_alike_cancelling :
    let a : Key := ⟨"o", "t", "a", "u"⟩
    let b : Key := ⟨"o", "t", "b", "u"⟩
    let one : Totals Int := Totals.empty.mergeAll [(a, 3), (b, 1), (a, -3), (b, 4)]
    let e : Entry Int := ⟨"o", "t", [⟨"b", 4, "u"⟩, ⟨"a", -3, "u"⟩]⟩
    let other := (Totals.empty.mergeEntry e).absorb ((Totals.empty.merge b 1).merge a 3)
    one.entries ≠ other.entries ∧ one.entries.Perm other.entries ∧ one.size = 2 ∧
      one.get? a = some 0 ∧ one.get? b = some 5 := by
  intro a b one e other
  obtain ⟨same, -, size, values, -⟩ := gathered_alike
    (Gathered.empty.mergeAll [(a, 3), (b, 1), (a, -3), (b, 4)])
    ((Gathered.empty.mergeEntry e).absorb ((Gathered.empty.merge b 1).merge a 3)) (by decide)
  refine ⟨by decide, same, size.trans ?_, (values a).trans ?_, (values b).trans ?_⟩
  · decide
  · decide
  · decide

end TraceTally
