/-!
# Named entries

A list of entries by name, of which the first with a name counts. A value that is set keeps the place
of the one it replaces, and comes last if there was none.
-/

namespace TraceTally.Entries

variable {α : Type} {k : String} {es : List (String × α)}

def get? (k : String) (es : List (String × α)) : Option α :=
  (es.find? fun (name, _) => name = k).map Prod.snd

def set (k : String) (a : α) : List (String × α) → List (String × α)
  | [] => [(k, a)]
  | (name, old) :: rest => if name = k then (k, a) :: rest else (name, old) :: set k a rest

@[simp] theorem get?_nil : get? k ([] : List (String × α)) = none := rfl

theorem get?_cons (k name : String) (a : α) (es : List (String × α)) :
    get? k ((name, a) :: es) = if name = k then some a else get? k es := by
  by_cases same : name = k <;> simp [get?, same]

theorem get?_eq_none : get? k es = none ↔ ∀ e ∈ es, e.1 ≠ k := by
  simp [get?, List.find?_eq_none]

theorem get?_eq_none_of_not_mem (new : k ∉ es.map Prod.fst) : get? k es = none :=
  get?_eq_none.mpr fun _ he same => new (same ▸ List.mem_map_of_mem he)

theorem get?_append (k : String) (es fs : List (String × α)) :
    get? k (es ++ fs) = (get? k es).or (get? k fs) := by
  simp only [get?, List.find?_append, Option.map_or]

theorem get?_set (j k : String) (a : α) (es : List (String × α)) :
    get? j (set k a es) = if k = j then some a else get? j es := by
  induction es with
  | nil => rw [set, get?_cons]
  | cons e es ih =>
    obtain ⟨name, old⟩ := e
    rw [set]
    split
    · rename_i same
      rw [get?_cons, get?_cons, same]
      split <;> rfl
    · rename_i other
      rw [get?_cons, get?_cons, ih]
      split
      · rename_i there
        rw [if_neg fun same => other (there.trans same.symm)]
      · rfl

/-- A new entry comes last. -/
theorem set_new (new : get? k es = none) (a : α) : set k a es = es ++ [(k, a)] := by
  induction es with
  | nil => rfl
  | cons e es ih =>
    rw [get?_eq_none, List.forall_mem_cons] at new
    rw [set, if_neg new.1, ih (get?_eq_none.mpr new.2)]
    rfl

theorem set_append_new (new : get? k es = none) (a : α) (fs : List (String × α)) :
    set k a (es ++ fs) = es ++ set k a fs := by
  induction es with
  | nil => rfl
  | cons e es ih =>
    rw [get?_eq_none, List.forall_mem_cons] at new
    rw [List.cons_append, set, if_neg new.1, ih (get?_eq_none.mpr new.2)]
    rfl

end TraceTally.Entries
