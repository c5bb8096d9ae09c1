import TraceTally.Proofs.Layers

/-!
# The order of keys

In which order the keys of a table and the variables of an environment are gone through is nobody's
choice. It counts only where two names lead to one place. So what is loaded is a relation here; the
function that loads is one of its cases, with everything in the order in which it is written.
-/

namespace TraceTally.Settings

namespace Tree

/-- The same tree with the entries of tables in any order; what stands in a list is left as it is. -/
inductive Reordered : Tree → Tree → Prop
  | refl (t : Tree) : Reordered t t
  | order {es fs : List (String × Tree)} (same : es.Perm fs) : Reordered (.table es) (.table fs)
  | entry (before after : List (String × Tree)) (k : String) {t u : Tree} (below : Reordered t u) :
      Reordered (.table (before ++ (k, t) :: after)) (.table (before ++ (k, u) :: after))
  | trans {t u v : Tree} (first : Reordered t u) (second : Reordered u v) : Reordered t v

namespace Reordered

variable {t u : Tree}

theorem symm (reordered : Reordered t u) : Reordered u t := by
  induction reordered with
  | refl t => exact .refl t
  | order same => exact .order same.symm
  | entry before after k _ ih => exact .entry before after k ih
  | trans _ _ first second => exact .trans second first

theorem names (reordered : Reordered t u) :
    (t.entries.map Prod.fst).Perm (u.entries.map Prod.fst) := by
  induction reordered with
  | refl t => exact .refl _
  | order same => exact same.map Prod.fst
  | entry before after k _ _ => simp [entries]
  | trans _ _ first second => exact first.trans second

theorem eq_of_isLeaf (reordered : Reordered t u) (leaf : t.IsLeaf) : u = t := by
  induction reordered with
  | refl => rfl
  | order => exact absurd rfl (leaf _)
  | entry => exact absurd rfl (leaf _)
  | trans first _ ih ih' =>
    obtain rfl := ih leaf
    exact ih' leaf

/-- If only one entry of a table has a name of some kind, it is the only one in any order. -/
theorem only (kind : String → Bool) {es : List (String × Tree)} {k : String} {v : Tree}
    (reordered : Reordered (.table es) u) (single : es.filter (fun e => kind e.1) = [(k, v)]) :
    ∃ fs w, u = .table fs ∧ fs.filter (fun e => kind e.1) = [(k, w)] ∧ Reordered v w := by
  generalize same : Tree.table es = t at reordered
  induction reordered generalizing es v with
  | refl => exact ⟨es, v, same.symm, single, .refl v⟩
  | order perm =>
    cases same
    have perm := perm.filter fun e => kind e.1
    rw [single] at perm
    exact ⟨_, v, rfl, (List.singleton_perm.mp perm).symm, .refl v⟩
  | entry before after k' below =>
    cases same
    rw [List.filter_append, List.filter_cons] at single
    by_cases here : kind k' = true
    · rw [if_pos here, List.append_eq_singleton_iff, List.cons.injEq, Prod.mk.injEq] at single
      rcases single with ⟨front, ⟨rfl, rfl⟩, back⟩ | ⟨_, rest⟩
      · refine ⟨_, _, rfl, ?_, below⟩
        rw [List.filter_append, List.filter_cons, if_pos here, front, back, List.nil_append]
      · cases rest
    · rw [if_neg here] at single
      refine ⟨_, v, rfl, ?_, .refl v⟩
      rw [List.filter_append, List.filter_cons, if_neg here, single]
  | trans first second ih ih' =>
    obtain ⟨fs, w, table, single, below⟩ := ih single same
    obtain ⟨gs, x, table', single, below'⟩ := ih' single table.symm
    exact ⟨gs, x, table', single, below.trans below'⟩

end Reordered

end Tree

/-- What the named document says, or nothing if none is named. -/
def document? (files : String → Option String) : Option String → Option (List (String × Tree))
  | none => some []
  | some name => (locate files name).bind ofDocument

/-- What loading gives. In which order the keys of a table or the variables are gone through is nobody's
choice, so the document may be laid in any order, and the environment too. -/
inductive Loads (files : String → Option String) (name : Option String)
    (env : List (String × String)) :
    Option (List (String × Tree)) → Except LoadError Settings → Prop
  | unreadable (missing : document? files name = none) :
      Loads files name env none (.error .unreadable)
  | laid {document file environment : List (String × Tree)}
      (read : document? files name = some document)
      (order : Tree.Reordered (.table document) (.table file))
      (order' : (ofEnvironment env).Perm environment) :
      Loads files name env (some file) (loadLayers file environment)

variable {files : String → Option String} {name : Option String} {env : List (String × String)}
  {s : Settings}

theorem load_eq (files : String → Option String) (name : Option String)
    (env : List (String × String)) :
    load files name env = match document? files name with
      | none => .error .unreadable
      | some file => loadLayers file (ofEnvironment env) := by
  cases name with
  | none => rfl
  | some name =>
    rw [load, document?]
    cases locate files name <;> rfl

/-- The order in which everything is written is one of them. -/
theorem loads_of_load {r : Except LoadError Settings} (loaded : load files name env = r) :
    Loads files name env (document? files name) r := by
  rw [← loaded, load_eq]
  cases read : document? files name with
  | none => exact .unreadable read
  | some file => exact .laid read (.refl _) (.refl _)

namespace Loads

variable {file : Option (List (String × Tree))}

/-- Settings that are loaded come from both sources in some order. -/
theorem exists_layers (loaded : Loads files name env file (.ok s)) :
    ∃ document laid environment es, file = some laid ∧ document? files name = some document ∧
      Tree.Reordered (.table document) (.table laid) ∧ (ofEnvironment env).Perm environment ∧
      merge laid environment = some (.table es) ∧ decode? lenient (.table es) = some s ∧
      s.fault? = none := by
  generalize result : (Except.ok s : Except LoadError Settings) = r at loaded
  cases loaded with
  | unreadable => cases result
  | laid read order order' =>
    obtain ⟨t, merged, decoded, fine⟩ := loadLayers_eq_ok.mp result.symm
    obtain ⟨es, rfl⟩ := merge_table merged
    exact ⟨_, _, _, es, rfl, read, order, order', merged, decoded, fine⟩

theorem fault? (loaded : Loads files name env file (.ok s)) : s.fault? = none := by
  obtain ⟨_, _, _, _, _, _, _, _, _, _, fine⟩ := loaded.exists_layers
  exact fine

theorem regular (loaded : Loads files name env file (.ok s)) : s.Regular := by
  obtain ⟨_, _, _, _, _, _, _, _, _, decoded, _⟩ := loaded.exists_layers
  exact regular_decode decoded

end Loads

end TraceTally.Settings
