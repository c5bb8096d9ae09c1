import Mathlib.Data.List.Basic
import TraceTally.Proofs.Loading

/-!
# Trees laid over each other

A source is laid over a tree path by path. What stands at a path stays there unless a source has
something for that path, or for a table on the way to it; a source that goes on beyond the path makes a
table of what was there.
-/

namespace TraceTally.Settings

open Entries (get? set get?_set get?_cons)

namespace Tree

def at? : List String → Tree → Option Tree
  | [], t => some t
  | k :: p, t => (get? k t.entries).bind (at? p)

@[simp] theorem at?_single (k : String) (es : List (String × Tree)) :
    at? [k] (.table es) = get? k es := by
  rw [at?, entries]
  cases get? k es <;> rfl

/-- A value that is put whole: anything but a table, whose entries are put one by one. -/
def IsLeaf (t : Tree) : Prop := ∀ es, t ≠ .table es

theorem put_of_isLeaf {t : Tree} (leaf : t.IsLeaf) (root : Tree) (k : String) :
    put root k t = .table (set k t root.entries) := by
  rw [put]
  exact leaf

/-- Whatever is put, it is one entry of the root that changes. -/
theorem put_eq (root : Tree) (k : String) (t : Tree) :
    ∃ u, put root k t = .table (set k u root.entries) := by
  cases t with
  | table es => exact ⟨_, by rw [put]⟩
  | unset | flag | whole | real | text | list =>
    exact ⟨_, put_of_isLeaf (by rintro es ⟨⟩) root k⟩

theorem putAt_key_cons (t : Tree) (k : String) (step : Step) (q : List Step) (root : Tree) :
    putAt t (.key k :: step :: q) root =
      (putAt t (step :: q) ((get? k root.entries).getD .unset)).map fun u =>
        .table (set k u root.entries) := rfl

theorem putAt_index_eq (t : Tree) (i : Int) (q : List Step) (root : Tree) :
    putAt t (.index i :: q) root = (place? i root.elements.length).bind fun n =>
      (putAt t q (root.elements.getD n .unset)).bind fun u =>
        some (.list ((root.elements.rightpad (n + 1) .unset).set n u)) := rfl

variable {t root root' : Tree} {k : String} {q : List Step}

theorem putAt_key (done : putAt t (.key k :: q) root = some root') :
    ∃ u, root' = .table (set k u root.entries) := by
  cases q with
  | nil =>
    cases done
    exact put_eq root k t
  | cons step q =>
    obtain ⟨u, _, rfl⟩ := Option.map_eq_some_iff.mp done
    exact ⟨u, rfl⟩

theorem putAt_index {i : Int} (done : putAt t (.index i :: q) root = some root') :
    ∃ n u, place? i root.elements.length = some n ∧
      putAt t q (root.elements.getD n .unset) = some u ∧
      root' = .list ((root.elements.rightpad (n + 1) .unset).set n u) := by
  obtain ⟨n, place, done⟩ := Option.bind_eq_some_iff.mp done
  obtain ⟨u, below, done⟩ := Option.bind_eq_some_iff.mp done
  cases done
  exact ⟨n, u, place, below, rfl⟩

/-- Not a single value. -/
def IsCompound (t : Tree) : Prop := (∃ es, t = .table es) ∨ ∃ ts, t = .list ts

theorem isCompound_putAt (nonempty : q ≠ []) (done : putAt t q root = some root') :
    root'.IsCompound := by
  cases q with
  | nil => exact absurd rfl nonempty
  | cons step q =>
    cases step with
    | key k =>
      obtain ⟨u, rfl⟩ := putAt_key done
      exact .inl ⟨_, rfl⟩
    | index i =>
      obtain ⟨n, u, -, -, rfl⟩ := putAt_index done
      exact .inr ⟨_, rfl⟩

theorem at?_table_set (j k : String) (q : List String) (u : Tree) (es : List (String × Tree)) :
    at? (j :: q) (.table (set k u es)) = if k = j then at? q u else (get? j es).bind (at? q) := by
  rw [at?, entries, get?_set]
  split <;> rfl

theorem at?_putAt_self (leaf : t.IsLeaf) {p : List String} (nonempty : p ≠ [])
    (done : putAt t (p.map .key) root = some root') : at? p root' = some t := by
  induction p generalizing root root' with
  | nil => exact absurd rfl nonempty
  | cons k p ih =>
    cases p with
    | nil =>
      cases done
      rw [put_of_isLeaf leaf, at?_table_set, if_pos rfl]
      rfl
    | cons k' p =>
      obtain ⟨u, below, rfl⟩ := Option.map_eq_some_iff.mp done
      rw [at?_table_set, if_pos rfl]
      exact ih (List.cons_ne_nil k' p) below

/-- Whether a path leads to a place or to a table around it, or makes a list of one. -/
def reaches : List Step → List String → Bool
  | [], _ => true
  | .key k :: q, j :: p => k = j && reaches q p
  | .index _ :: _, _ :: _ => true
  | _ :: _, [] => false

theorem reaches_key (k j : String) (q : List Step) (p : List String) :
    reaches (.key k :: q) (j :: p) = (decide (k = j) && reaches q p) := rfl

/-- The value at `p` after another was put at a path that does not reach it. -/
theorem at?_putAt_other {p : List String} (other : reaches q p = false)
    (done : putAt t q root = some root') :
    at? p root' = at? p root ∨ ∃ u, at? p root' = some u ∧ u.IsCompound := by
  induction q generalizing p root root' with
  | nil => simp [reaches] at other
  | cons step q ih =>
    cases p with
    | nil => exact .inr ⟨root', rfl, isCompound_putAt (List.cons_ne_nil step q) done⟩
    | cons j p =>
      cases step with
      | index i => simp [reaches] at other
      | key k =>
        by_cases same : k = j
        · subst same
          have below : reaches q p = false := by simpa [reaches] using other
          cases q with
          | nil => simp [reaches] at below
          | cons step q =>
            obtain ⟨u, within, rfl⟩ := Option.map_eq_some_iff.mp done
            rw [at?_table_set, if_pos rfl, at?]
            cases found : get? k root.entries with
            | some old =>
              rw [found] at within
              exact ih below within
            | none =>
              -- Where nothing stood there is now a table or a list, with nothing else below it.
              cases p with
              | nil => exact .inr ⟨u, rfl, isCompound_putAt (List.cons_ne_nil step q) within⟩
              | cons j p =>
                rw [found] at within
                exact ih below within
        · obtain ⟨u, rfl⟩ := putAt_key done
          exact .inl (by rw [at?_table_set, if_neg same, at?])

theorem putAll_append (root : Tree) (es fs : List (String × Tree)) :
    putAll root (es ++ fs) = putAll (putAll root es) fs := by
  induction es generalizing root with
  | nil => rw [List.nil_append, putAll]
  | cons e es ih => rw [List.cons_append, putAll, putAll, ih]

theorem get?_putAll_other {k : String} {es : List (String × Tree)} (other : ∀ e ∈ es, e.1 ≠ k)
    (root : Tree) : get? k (putAll root es).entries = get? k root.entries := by
  induction es generalizing root with
  | nil => rw [putAll]
  | cons e es ih =>
    obtain ⟨different, others⟩ := List.forall_mem_cons.mp other
    obtain ⟨u, put⟩ := put_eq root e.1 e.2
    rw [putAll, ih others, put, entries, get?_set, if_neg different]

/-- The last entry of a name in a table that is put is what stands there then. -/
theorem at?_put_table {k j : String} {v : Tree} (leaf : v.IsLeaf)
    {es before after : List (String × Tree)} (split : es = before ++ (j, v) :: after)
    (other : ∀ e ∈ after, e.1 ≠ j) (root : Tree) :
    at? [k, j] (put root k (.table es)) = some v := by
  rw [put, at?_table_set, if_pos rfl, at?, split, putAll_append, putAll, get?_putAll_other other,
    put_of_isLeaf leaf, entries, get?_set, if_pos rfl]
  rfl

end Tree

/-- Every path begins with a name. -/
theorem exists_path_eq (name : String) : ∃ k q, path name = .key k :: q := by
  have first (cs : List Char) (steps : List Step) (read : steps? cs = some steps) :
      ∃ k q, steps = .key k :: q := by
    unfold steps? at read
    split at read
    · cases read
    · split at read
      · obtain ⟨indices, _, rfl⟩ := Option.map_eq_some_iff.mp read
        exact ⟨_, indices, rfl⟩
      · cases read
  unfold path
  cases read : (Text.splitOn '.' name.toList).mapM steps? with
  | none => exact ⟨name, [], rfl⟩
  | some parts =>
    obtain ⟨part, others, shape⟩ := List.exists_cons_of_ne_nil (Text.splitOn_ne_nil '.' name.toList)
    rw [shape, List.mapM_cons] at read
    obtain ⟨steps, here, read⟩ := Option.bind_eq_some_iff.mp read
    obtain ⟨more, _, read⟩ := Option.bind_eq_some_iff.mp read
    cases read
    obtain ⟨k, q, rfl⟩ := first part steps here
    exact ⟨k, q ++ more.flatten, rfl⟩

variable {root root' : Tree} {source : List (String × Tree)}

/-- In the course of a source each of its entries is put on some tree. -/
theorem exists_put_of_overlay {before after : List (String × Tree)} {e : String × Tree}
    (done : overlay root (before ++ e :: after) = some root') :
    ∃ m m', e.2.putAt (path e.1) m = some m' ∧ overlay m' after = some root' := by
  rw [overlay, List.foldlM_append] at done
  obtain ⟨m, _, done⟩ := Option.bind_eq_some_iff.mp done
  obtain ⟨m', put, done⟩ := Option.bind_eq_some_iff.mp done
  exact ⟨m, m', put, done⟩

theorem overlay_keeps {P : Tree → Prop} (start : P root)
    (each : ∀ e ∈ source, ∀ m m', P m → e.2.putAt (path e.1) m = some m' → P m')
    (done : overlay root source = some root') : P root' :=
  foldlM_keeps each start done

theorem overlay_table {es : List (String × Tree)} (done : overlay (.table es) source = some root') :
    ∃ fs, root' = .table fs := by
  refine overlay_keeps (P := fun root => ∃ fs, root = .table fs) ⟨es, rfl⟩ (fun e _ m m' _ put => ?_) done
  obtain ⟨k, q, shape⟩ := exists_path_eq e.1
  obtain ⟨u, table⟩ := Tree.putAt_key (shape ▸ put)
  exact ⟨_, table⟩

theorem merge_eq_some {file environment : List (String × Tree)} :
    merge file environment = some root ↔
      ∃ base, overlay (.table (tree {})) file = some base ∧ overlay base environment = some root :=
  Option.bind_eq_some_iff

theorem merge_table {file environment : List (String × Tree)} (merged : merge file environment = some root) :
    ∃ es, root = .table es := by
  obtain ⟨base, below, above⟩ := merge_eq_some.mp merged
  obtain ⟨fs, rfl⟩ := overlay_table below
  exact overlay_table above

/-- A value stands at a path, unless a table or a list has taken its place. -/
def Settled (p : List String) (t root : Tree) : Prop :=
  Tree.at? p root = some t ∨ ∃ u, Tree.at? p root = some u ∧ u.IsCompound

theorem Settled.overlay {p : List String} {t : Tree} (settled : Settled p t root)
    (other : ∀ e ∈ source, Tree.reaches (path e.1) p = false)
    (done : overlay root source = some root') : Settled p t root' := by
  refine overlay_keeps settled (fun e he m m' settled put => ?_) done
  rcases Tree.at?_putAt_other (other e he) put with kept | compound
  · rw [Settled, kept]
    exact settled
  · exact .inr compound

/-- One entry of a source settles its path, if no other reaches it. -/
theorem settled_of_source {p : List String} {t : Tree} {name : String} {v : Tree}
    (only : source.filter (fun e => Tree.reaches (path e.1) p) = [(name, v)])
    (here : ∀ {m m'}, v.putAt (path name) m = some m' → Settled p t m')
    (done : overlay root source = some root') : Settled p t root' := by
  obtain ⟨before, after, rfl, -, -, later⟩ := List.filter_eq_cons_iff.mp only
  obtain ⟨m, m', put, done⟩ := exists_put_of_overlay done
  exact (here put).overlay (fun e he => by simpa using List.filter_eq_nil_iff.mp later e he) done

/-- The path of the setting that a variable is for. -/
def pathOf? (name : String) : Option (List Step) := (settingOf? name).map path

/-- Whether a variable is for the setting at the path or for a section around it. -/
def bearsOn (p : List String) (name : String) : Bool := (pathOf? name).any (Tree.reaches · p)

theorem not_reaches_of_ofEnvironment {p : List String} {env : List (String × String)}
    (none : ∀ v ∈ env, bearsOn p v.1 = false) :
    ∀ e ∈ ofEnvironment env, Tree.reaches (path e.1) p = false := by
  intro e he
  obtain ⟨v, hv, made⟩ := List.mem_filterMap.mp he
  obtain ⟨setting, target, rfl⟩ := Option.map_eq_some_iff.mp made
  have free := none v hv
  rwa [bearsOn, pathOf?, target, Option.map_some, Option.any_some] at free

/-- The value of a variable is never a table or a list, and never absent. -/
theorem variableValue_cases (s : String) :
    (∃ b, variableValue s = .flag b) ∨ (∃ n, variableValue s = .whole n) ∨
      (∃ x, variableValue s = .real x) ∨ variableValue s = .text s := by
  unfold variableValue
  split
  · exact .inl ⟨true, rfl⟩
  · exact .inl ⟨false, rfl⟩
  · split
    · exact .inr (.inl ⟨_, rfl⟩)
    · split
      · exact .inr (.inr (.inl ⟨_, rfl⟩))
      · exact .inr (.inr (.inr rfl))

theorem isLeaf_variableValue (s : String) : (variableValue s).IsLeaf := by
  rintro es table
  rcases variableValue_cases s with ⟨_, value⟩ | ⟨_, value⟩ | ⟨_, value⟩ | value <;>
    cases value.symm.trans table

theorem filter_ofEnvironment {p : List String} {env : List (String × String)}
    {name text setting : String} (only : env.filter (fun v => bearsOn p v.1) = [(name, text)])
    (target : settingOf? name = some setting) :
    (ofEnvironment env).filter (fun e => Tree.reaches (path e.1) p) =
      [(setting, variableValue text)] := by
  obtain ⟨before, after, rfl, earlier, bears, later⟩ := List.filter_eq_cons_iff.mp only
  have free (vs : List (String × String)) (none : ∀ v ∈ vs, bearsOn p v.1 = false) :
      (ofEnvironment vs).filter (fun e => Tree.reaches (path e.1) p) = [] :=
    List.filter_eq_nil_iff.mpr fun e he => by simp [not_reaches_of_ofEnvironment none e he]
  have source : ofEnvironment (before ++ (name, text) :: after) =
      ofEnvironment before ++ (setting, variableValue text) :: ofEnvironment after := by
    rw [ofEnvironment, List.filterMap_append, List.filterMap_cons]
    simp only [target, Option.map_some]
    rfl
  rw [bearsOn, pathOf?, target, Option.map_some, Option.any_some] at bears
  rw [source, List.filter_append, List.filter_cons, if_pos bears,
    free before fun v hv => by simpa using earlier v hv,
    free after fun v hv => by simpa using List.filter_eq_nil_iff.mp later v hv, List.nil_append]

/-- The only variable that bears on a path settles it, in whatever order variables are laid. -/
theorem settled_of_variable {p : List String} {env : List (String × String)} {name text : String}
    (only : env.filter (fun v => bearsOn p v.1) = [(name, text)]) (nonempty : p ≠ [])
    (target : pathOf? name = some (p.map .key)) {environment : List (String × Tree)}
    (order : (ofEnvironment env).Perm environment) {root root' : Tree}
    (done : overlay root environment = some root') :
    Settled p (variableValue text) root' := by
  obtain ⟨setting, found, same⟩ := Option.map_eq_some_iff.mp target
  have alone := order.filter fun e => Tree.reaches (path e.1) p
  rw [filter_ofEnvironment only found] at alone
  refine settled_of_source (List.singleton_perm.mp alone).symm (fun put => .inl ?_) done
  exact Tree.at?_putAt_self (isLeaf_variableValue text) nonempty (same ▸ put)

end TraceTally.Settings
