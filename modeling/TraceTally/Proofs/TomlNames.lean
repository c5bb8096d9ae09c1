import Mathlib.Data.List.Nodup
import TraceTally.Proofs.Loading

/-!
# Names in TOML documents

A document that is read has no name twice in one table, at the top and below: every statement adds a name
that is new, or goes on in a table that is there.
-/

namespace TraceTally

namespace Entries

variable {α : Type} {P : α → Prop} {k : String} {a : α} {es : List (String × α)}

/-- No name twice, and every value as required. -/
structure Distinct (P : α → Prop) (es : List (String × α)) : Prop where
  names : (es.map Prod.fst).Nodup
  values : ∀ e ∈ es, P e.2

theorem Distinct.nil : Distinct P [] := ⟨List.nodup_nil, nofun⟩

theorem mem_of_get? (here : get? k es = some a) : (k, a) ∈ es := by
  obtain ⟨⟨name, a⟩, found, rfl⟩ := Option.map_eq_some_iff.mp here
  obtain rfl : name = k := by simpa using List.find?_some found
  exact List.mem_of_find?_eq_some found

theorem get?_eq_some_iff (names : (es.map Prod.fst).Nodup) :
    get? k es = some a ↔ (k, a) ∈ es := by
  refine ⟨mem_of_get?, fun mem => ?_⟩
  induction es with
  | nil => cases mem
  | cons e es ih =>
    obtain ⟨name, b⟩ := e
    obtain ⟨new, names⟩ := List.nodup_cons.mp names
    rw [get?_cons]
    rcases List.mem_cons.mp mem with here | mem
    · cases here
      rw [if_pos rfl]
    · have other : name ≠ k := by
        rintro rfl
        exact new (List.mem_map.mpr ⟨_, mem, rfl⟩)
      rw [if_neg other, ih names mem]

theorem get?_perm {fs : List (String × α)} (names : (es.map Prod.fst).Nodup) (same : es.Perm fs) :
    get? k es = get? k fs := by
  ext a
  rw [get?_eq_some_iff names, get?_eq_some_iff ((same.map Prod.fst).nodup names), same.mem_iff]

theorem Distinct.get? (distinct : Distinct P es) (here : get? k es = some a) : P a :=
  distinct.values _ (mem_of_get? here)

theorem fst_set (k : String) (a : α) (es : List (String × α)) :
    (set k a es).map Prod.fst =
      if k ∈ es.map Prod.fst then es.map Prod.fst else es.map Prod.fst ++ [k] := by
  induction es with
  | nil => rfl
  | cons e es ih =>
    by_cases same : e.1 = k
    · simp [set, same]
    · rw [set, if_neg same, List.map_cons, ih]
      by_cases mem : k ∈ es.map Prod.fst <;> simp [Ne.symm same, mem] at *

theorem forall_set (values : ∀ e ∈ es, P e.2) (here : P a) : ∀ e ∈ set k a es, P e.2 := by
  induction es with
  | nil => simpa [set] using here
  | cons e es ih =>
    obtain ⟨first, later⟩ := List.forall_mem_cons.mp values
    rw [set]
    split
    · exact List.forall_mem_cons.mpr ⟨here, later⟩
    · exact List.forall_mem_cons.mpr ⟨first, ih later⟩

theorem Distinct.set (distinct : Distinct P es) (here : P a) : Distinct P (set k a es) := by
  refine ⟨?_, forall_set distinct.values here⟩
  rw [fst_set]
  split
  · exact distinct.names
  · rename_i new
    rw [← List.concat_eq_append]
    exact distinct.names.concat new

end Entries

namespace Toml

open Entries (get? set)

/-- No name twice in a table, nor in a table below it. -/
inductive Value.Distinct : Value → Prop
  | table {es : Table} (names : (es.map Prod.fst).Nodup) (values : ∀ e ∈ es, e.2.Distinct) :
      Distinct (.table es)
  | leaf {v : Value} (leaf : ∀ es, v ≠ .table es) : Distinct v

abbrev Table.Distinct (es : Table) : Prop := Entries.Distinct Value.Distinct es

theorem Value.distinct_table {es : Table} : (Value.table es).Distinct ↔ es.Distinct := by
  constructor
  · rintro (⟨names, values⟩ | leaf)
    · exact ⟨names, values⟩
    · exact absurd rfl (leaf es)
  · exact fun distinct => .table distinct.names distinct.values

abbrev Nodes.Distinct (ns : Nodes) : Prop := Entries.Distinct (fun n => n.toValue.Distinct) ns

theorem entriesToValue_eq_map (ns : Nodes) :
    entriesToValue ns = ns.map fun e => (e.1, e.2.toValue) := by
  induction ns with
  | nil => rw [entriesToValue, List.map_nil]
  | cons e ns ih => rw [entriesToValue, List.map_cons, ih]

theorem distinct_entriesToValue {ns : Nodes} : Table.Distinct (entriesToValue ns) ↔ ns.Distinct := by
  have names : (entriesToValue ns).map Prod.fst = ns.map Prod.fst := by
    rw [entriesToValue_eq_map, List.map_map]
    rfl
  have values : (∀ e ∈ entriesToValue ns, e.2.Distinct) ↔ ∀ e ∈ ns, e.2.toValue.Distinct := by
    rw [entriesToValue_eq_map, List.forall_mem_map]
  exact ⟨fun d => ⟨names ▸ d.names, values.mp d.values⟩,
    fun d => ⟨names ▸ d.names, values.mpr d.values⟩⟩

theorem distinct_table {origin : Origin} {ns : Nodes} :
    (Node.table origin ns).toValue.Distinct ↔ ns.Distinct := by
  rw [Node.toValue, Value.distinct_table, distinct_entriesToValue]

theorem distinct_tables (elements : List Nodes) : (Node.tables elements).toValue.Distinct := by
  rw [Node.toValue]
  exact .leaf nofun

namespace Nodes

theorem distinct_modify {origin : Origin} {f : Origin → Nodes → Option Nodes}
    (each : ∀ {o ns ns'}, Distinct ns → f o ns = some ns' → Distinct ns') :
    ∀ {path : List String} {o : Origin} {ns ns' : Nodes}, Distinct ns →
      modify origin f o path ns = some ns' → Distinct ns' := by
  intro path
  induction path with
  | nil => exact each
  | cons k path ih =>
    intro o ns ns' distinct done
    rw [modify] at done
    split at done
    · obtain ⟨sub, below, rfl⟩ := Option.map_eq_some_iff.mp done
      exact distinct.set (distinct_table.mpr (ih .nil below))
    · cases done
    · rename_i o' sub here
      split at done
      · cases done
      · obtain ⟨sub', below, rfl⟩ := Option.map_eq_some_iff.mp done
        exact distinct.set (distinct_table.mpr (ih (distinct_table.mp (distinct.get? here)) below))
    · cases done
    · obtain ⟨sub', below, rfl⟩ := Option.map_eq_some_iff.mp done
      exact distinct.set (distinct_tables _)

theorem distinct_openTable {k : String} {ns ns' : Nodes} (distinct : Distinct ns)
    (done : openTable k ns = some ns') : Distinct ns' := by
  unfold openTable at done
  split at done
  · cases done
    exact distinct.set (distinct_table.mpr .nil)
  · rename_i here
    cases done
    exact distinct.set (distinct_table.mpr (distinct_table.mp (distinct.get? here)))
  · cases done

theorem distinct_openElement {k : String} {ns ns' : Nodes} (distinct : Distinct ns)
    (done : openElement k ns = some ns') : Distinct ns' := by
  unfold openElement at done
  split at done
  · cases done
    exact distinct.set (distinct_tables _)
  · cases done
    exact distinct.set (distinct_tables _)
  · cases done

theorem distinct_assign {path : List String} {v : Value} (value : v.Distinct) {ns ns' : Nodes}
    (distinct : Distinct ns) (done : assign path v ns = some ns') : Distinct ns' := by
  obtain ⟨⟨front, k⟩, _, done⟩ := Option.bind_eq_some_iff.mp done
  refine distinct_modify (fun distinct done => ?_) distinct done
  split at done
  · cases done
  · cases done
    exact distinct.set (by rwa [Node.toValue])

end Nodes

theorem distinct_braces {pairs : List (List String × Value)} {es : Table}
    (values : ∀ p ∈ pairs, p.2.Distinct) (made : braces pairs = some es) : es.Distinct := by
  obtain ⟨ns, filled, rfl⟩ := Option.map_eq_some_iff.mp made
  exact distinct_entriesToValue.mpr (Settings.foldlM_keeps
    (fun p hp ns ns' distinct => Nodes.distinct_assign (values p hp) distinct) .nil filled)

theorem signed_ne_table {negative : Bool} {n : Nat} {v : Value} (made : signed negative n = some v)
    (es : Table) : v ≠ .table es := by
  obtain ⟨_, made⟩ := Option.ite_none_right_eq_some.mp made
  cases made
  exact nofun

theorem real?_ne_table {negative : Bool} {cs : List Char} {v : Value}
    (made : real? negative cs = some v) (es : Table) : v ≠ .table es := by
  unfold real? at made
  split at made
  · cases made
    exact nofun
  · cases made
    exact nofun
  · obtain ⟨n, _, made⟩ := Option.bind_eq_some_iff.mp made
    split at made
    · cases made
      exact nofun
    · cases made

theorem number?_ne_table {cs : List Char} {v : Value} (made : number? cs = some v) (es : Table) :
    v ≠ .table es := by
  unfold number? at made
  split at made
  · obtain ⟨_, _, made⟩ := Option.bind_eq_some_iff.mp made
    exact signed_ne_table made es
  · obtain ⟨_, _, made⟩ := Option.bind_eq_some_iff.mp made
    exact signed_ne_table made es
  · obtain ⟨_, _, made⟩ := Option.bind_eq_some_iff.mp made
    exact signed_ne_table made es
  · dsimp only at made
    split at made
    · exact signed_ne_table made es
    · exact real?_ne_table made es

theorem dateTime?_ne_table {cs : List Char} {v : Value} (made : dateTime? cs = some v) (es : Table) :
    v ≠ .table es := by
  unfold dateTime? at made
  split at made
  · split at made
    · cases made
      exact nofun
    · cases made
  · cases made
    exact nofun
  · split at made
    · obtain ⟨_, _, made⟩ := Option.bind_eq_some_iff.mp made
      obtain ⟨_, _, made⟩ := Option.bind_eq_some_iff.mp made
      cases made
      exact nofun
    · cases made

theorem ofWord?_ne_table {cs : List Char} {v : Value} (made : ofWord? cs = some v) (es : Table) :
    v ≠ .table es := by
  unfold ofWord? at made
  split at made
  · cases made
    exact nofun
  · cases made
    exact nofun
  · cases number : number? cs with
    | some n =>
      rw [number] at made
      cases made
      exact number?_ne_table number es
    | none =>
      rw [number] at made
      exact dateTime?_ne_table made es

theorem scalar?_ne_table {cs rest : List Char} {v : Value} (made : scalar? cs = some (v, rest))
    (es : Table) : v ≠ .table es := by
  obtain ⟨v', word, same⟩ := Option.map_eq_some_iff.mp made
  cases same
  exact ofWord?_ne_table word es

section

variable {build : Builder}

/-- Values and assignments, by what they hold; elements of lists may be anything. -/
theorem distinct_steps
    (built : ∀ pairs es, (∀ p ∈ pairs, p.2.Distinct) → build pairs = some es → es.Distinct)
    (steps : Nat) :
    (∀ {cs v rest}, valueSteps build steps cs = some (v, rest) → v.Distinct) ∧
      ∀ {cs pairs rest}, memberSteps build steps cs = some (pairs, rest) →
        ∀ p ∈ pairs, p.2.Distinct := by
  induction steps with
  | zero => exact ⟨nofun, nofun⟩
  | succ steps ih =>
    obtain ⟨value, member⟩ := ih
    constructor
    · intro cs v rest read
      unfold valueSteps at read
      split at read
      · obtain ⟨_, _, same⟩ := Option.map_eq_some_iff.mp read
        cases same
        exact .leaf nofun
      · obtain ⟨_, _, same⟩ := Option.map_eq_some_iff.mp read
        cases same
        exact .leaf nofun
      · obtain ⟨_, _, same⟩ := Option.map_eq_some_iff.mp read
        cases same
        exact .leaf nofun
      · split at read
        · cases read
          exact .table List.nodup_nil nofun
        · obtain ⟨⟨pairs, _⟩, within, read⟩ := Option.bind_eq_some_iff.mp read
          obtain ⟨es, made, same⟩ := Option.bind_eq_some_iff.mp read
          cases same
          exact Value.distinct_table.mpr (built pairs es (member within) made)
      · exact .leaf (scalar?_ne_table read)
    · intro cs pairs rest read
      unfold memberSteps at read
      obtain ⟨⟨path, _⟩, _, read⟩ := Option.bind_eq_some_iff.mp read
      dsimp only at read
      split at read
      · obtain ⟨⟨v, _⟩, here, read⟩ := Option.bind_eq_some_iff.mp read
        dsimp only at read
        split at read
        · cases read
          exact List.forall_mem_singleton.mpr (value here)
        · obtain ⟨⟨more, _⟩, later, same⟩ := Option.map_eq_some_iff.mp read
          cases same
          exact List.forall_mem_cons.mpr ⟨value here, member later⟩
        · cases read
      · cases read

end

/-- A statement that gives its table no name twice. -/
def Statement.Distinct : Statement → Prop
  | .assign _ v => v.Distinct
  | _ => True

theorem distinct_statement {cs rest : List Char} {st : Statement}
    (read : statement? braces cs = some (st, rest)) : st.Distinct := by
  unfold statement? at read
  split at read
  · obtain ⟨⟨_, _⟩, _, read⟩ := Option.bind_eq_some_iff.mp read
    split at read
    · cases read
      trivial
    · cases read
  · obtain ⟨⟨_, _⟩, _, read⟩ := Option.bind_eq_some_iff.mp read
    split at read
    · cases read
      trivial
    · cases read
  · obtain ⟨⟨_, _⟩, _, read⟩ := Option.bind_eq_some_iff.mp read
    dsimp only at read
    split at read
    · obtain ⟨⟨v, _⟩, value, same⟩ := Option.map_eq_some_iff.mp read
      cases same
      exact (distinct_steps (fun _ _ => distinct_braces) _).1 value
    · cases read

theorem distinct_statementSteps {steps : Nat} {cs : List Char} {ss : List Statement}
    (read : statementSteps braces steps cs = some ss) : ∀ st ∈ ss, st.Distinct := by
  induction steps generalizing cs ss with
  | zero => cases read
  | succ steps ih =>
    unfold statementSteps at read
    obtain ⟨_, _, read⟩ := Option.bind_eq_some_iff.mp read
    split at read
    · cases read
      exact nofun
    · obtain ⟨⟨st, _⟩, here, read⟩ := Option.bind_eq_some_iff.mp read
      obtain ⟨_, _, read⟩ := Option.bind_eq_some_iff.mp read
      obtain ⟨later, rest, rfl⟩ := Option.map_eq_some_iff.mp read
      exact List.forall_mem_cons.mpr ⟨distinct_statement here, ih rest⟩

theorem Document.distinct_step {d d' : Document} {st : Statement} (statement : st.Distinct)
    (distinct : d.root.Distinct) (done : d.step st = some d') : d'.root.Distinct := by
  cases st with
  | header path =>
    obtain ⟨_, _, done⟩ := Option.bind_eq_some_iff.mp done
    obtain ⟨root, opened, rfl⟩ := Option.map_eq_some_iff.mp done
    exact Nodes.distinct_modify Nodes.distinct_openTable distinct opened
  | listHeader path =>
    obtain ⟨_, _, done⟩ := Option.bind_eq_some_iff.mp done
    obtain ⟨root, opened, rfl⟩ := Option.map_eq_some_iff.mp done
    exact Nodes.distinct_modify Nodes.distinct_openElement distinct opened
  | assign path v =>
    obtain ⟨root, assigned, rfl⟩ := Option.map_eq_some_iff.mp done
    exact Nodes.distinct_modify (Nodes.distinct_assign statement) distinct assigned

theorem distinct_of_read? {text : List Char} {table : Table} (read : read? text = some table) :
    table.Distinct := by
  obtain ⟨ss, statements, read⟩ := Option.bind_eq_some_iff.mp read
  obtain ⟨d, filled, rfl⟩ := Option.map_eq_some_iff.mp read
  refine distinct_entriesToValue.mpr (Settings.foldlM_keeps (P := fun d : Document => d.root.Distinct)
    (fun st mem d d' => Document.distinct_step (distinct_statementSteps statements st mem)) .nil
    filled)

end Toml

end TraceTally
