import TraceTally.Proofs.Layers

/-!
# What a source says

A source by itself is laid over nothing. Laid over a tree it says at every path what it says by itself;
where it says nothing, what the tree said there is kept, or is lost because the source has a value in
the place of a table around it. An empty table says nothing, and changes nothing.
-/

namespace TraceTally.Settings

open Entries (get? set)

namespace Tree

def isEmptyTable : Tree → Bool
  | .table [] => true
  | _ => false

def isList : Tree → Bool
  | .list _ => true
  | _ => false

def isTable : Tree → Bool
  | .table _ => true
  | _ => false

theorem exists_of_isTable {t : Tree} (table : t.isTable = true) : ∃ es, t = .table es := by
  cases t with
  | table es => exact ⟨es, rfl⟩
  | unset | flag | whole | real | text | list => cases table

/-- What stands somewhere, if it is something else than an empty table. -/
def stated (t : Option Tree) : Option Tree := t.filter fun t => !t.isEmptyTable

theorem stated_eq_none {t : Option Tree} : stated t = none ↔ t = none ∨ t = some (.table []) := by
  cases t with
  | none => simp [stated]
  | some t =>
    cases t with
    | table es => cases es <;> simp [stated, isEmptyTable]
    | unset | flag | whole | real | text | list => simp [stated, isEmptyTable]

theorem eq_of_stated {t : Option Tree} {u : Tree} (value : stated t = some u) : t = some u :=
  (Option.filter_eq_some_iff.mp value).1

theorem stated_of_all {t : Option Tree} (other : t.all (!·.isEmptyTable)) : stated t = t := by
  cases t with
  | none => rfl
  | some t => exact Option.filter_some_pos other

/-- There is nothing below what stands somewhere. -/
structure IsBare (t : Option Tree) : Prop where
  entries : (t.getD .unset).entries = []
  elements : (t.getD .unset).elements = []

theorem isBare_of_unstated {t : Option Tree} (value : stated t = none) : IsBare t := by
  rcases stated_eq_none.mp value with rfl | rfl <;> exact ⟨rfl, rfl⟩

/-- The first is the second, or the second says nothing and the first is `below`. -/
def Over (below first second : Option Tree) : Prop :=
  first = second ∨ stated second = none ∧ first = below

variable {below first second : Option Tree} {m m' f f' t : Tree} {q : List Step}

theorem Over.entries_eq (bare : IsBare below) (laid : Over below first second) :
    (first.getD .unset).entries = (second.getD .unset).entries := by
  rcases laid with rfl | ⟨none, rfl⟩
  · rfl
  · rw [bare.entries, (isBare_of_unstated none).entries]

theorem Over.elements_eq (bare : IsBare below) (laid : Over below first second) :
    (first.getD .unset).elements = (second.getD .unset).elements := by
  rcases laid with rfl | ⟨none, rfl⟩
  · rfl
  · rw [bare.elements, (isBare_of_unstated none).elements]

theorem put_congr (same : m.entries = f.entries) (k : String) (t : Tree) : put m k t = put f k t := by
  cases t with
  | table es => rw [put, put, same]
  | unset | flag | whole | real | text | list =>
    rw [put_of_isLeaf (by rintro es ⟨⟩), put_of_isLeaf (by rintro es ⟨⟩), same]

/-- Of what stands somewhere, only what is below counts for a path that goes on. -/
theorem putAt_congr (entries : m.entries = f.entries) (elements : m.elements = f.elements) (t : Tree)
    (step : Step) (q : List Step) : putAt t (step :: q) m = putAt t (step :: q) f := by
  cases step with
  | index i => simp only [putAt_index_eq, elements]
  | key k =>
    cases q with
    | nil => exact congrArg some (put_congr entries k t)
    | cons step q => rw [putAt_key_cons, putAt_key_cons, entries]

theorem at?_table_set_other {j k : String} (other : k ≠ j) (q : List String) (u root : Tree) :
    at? (j :: q) (.table (set k u root.entries)) = at? (j :: q) root := by
  rw [at?_table_set, if_neg other, at?]

theorem bind_at?_nil (t : Option Tree) : t.bind (at? []) = t := by
  cases t <;> rfl

theorem at?_pair (k j : String) (t : Tree) : at? [k, j] t = (at? [k] t).bind (at? [j]) := by
  rw [at?, at?]
  cases get? k t.entries <;> rfl

theorem at?_cons_getD (j : String) (p : List String) (t : Option Tree) :
    at? (j :: p) (t.getD .unset) = t.bind (at? (j :: p)) := by
  cases t <;> rfl

/-- A table that is put has an empty one to be put on. -/
theorem Over.at?_getD {p : List String} (laid : Over below (first.bind (at? p)) (second.bind (at? p))) :
    Over below (at? p (first.getD (.table []))) (at? p (second.getD (.table []))) := by
  cases p with
  | cons k p =>
    have unchanged (t : Option Tree) : at? (k :: p) (t.getD (.table [])) = t.bind (at? (k :: p)) := by
      cases t <;> rfl
    rw [unchanged, unchanged]
    exact laid
  | nil =>
    rw [bind_at?_nil, bind_at?_nil] at laid
    rcases laid with rfl | ⟨none, rfl⟩
    · exact .inl rfl
    · have empty : second.getD (.table []) = .table [] := by
        rcases stated_eq_none.mp none with rfl | rfl <;> rfl
      rw [empty]
      cases first with
      | none => exact .inl rfl
      | some t => exact .inr ⟨rfl, rfl⟩

mutual

theorem over_put (bare : IsBare below) (k : String) :
    ∀ (t : Tree) {p : List String} {m f : Tree}, Over below (at? p m) (at? p f) →
      Over below (at? p (put m k t)) (at? p (put f k t))
  | t, [], m, f, laid => by
    have entries : m.entries = f.entries := laid.entries_eq bare
    exact .inl (by rw [put_congr entries])
  | t, j :: p, m, f, laid => by
    by_cases same : k = j
    · subst same
      cases t with
      | table es =>
        rw [put, put, at?_table_set, at?_table_set, if_pos rfl, if_pos rfl]
        exact over_putAll bare es laid.at?_getD
      | unset | flag | whole | real | text | list =>
        refine .inl ?_
        rw [put_of_isLeaf (by rintro es ⟨⟩), put_of_isLeaf (by rintro es ⟨⟩), at?_table_set,
          at?_table_set, if_pos rfl, if_pos rfl]
    · obtain ⟨u, first⟩ := put_eq m k t
      obtain ⟨v, second⟩ := put_eq f k t
      rw [first, second, at?_table_set_other same, at?_table_set_other same]
      exact laid

theorem over_putAll (bare : IsBare below) :
    ∀ (es : List (String × Tree)) {p : List String} {m f : Tree}, Over below (at? p m) (at? p f) →
      Over below (at? p (putAll m es)) (at? p (putAll f es))
  | [], p, m, f, laid => by
    rw [putAll, putAll]
    exact laid
  | (k, t) :: es, p, m, f, laid => by
    rw [putAll, putAll]
    exact over_putAll bare es (over_put bare k t laid)

end

theorem over_putAt (bare : IsBare below) {p : List String} (laid : Over below (at? p m) (at? p f))
    (done : putAt t q m = some m') (done' : putAt t q f = some f') :
    Over below (at? p m') (at? p f') := by
  induction q generalizing p m f m' f' with
  | nil =>
    cases done
    cases done'
    exact .inl rfl
  | cons step q ih =>
    cases p with
    | nil =>
      have entries : m.entries = f.entries := laid.entries_eq bare
      have elements : m.elements = f.elements := laid.elements_eq bare
      rw [putAt_congr entries elements, done'] at done
      cases done
      exact .inl rfl
    | cons j p =>
      cases step with
      | index i =>
        obtain ⟨_, _, _, _, rfl⟩ := putAt_index done
        obtain ⟨_, _, _, _, rfl⟩ := putAt_index done'
        exact .inl rfl
      | key k =>
        cases q with
        | nil =>
          cases done
          cases done'
          exact over_put bare k t laid
        | cons step q =>
          obtain ⟨u, within, rfl⟩ := Option.map_eq_some_iff.mp done
          obtain ⟨v, within', rfl⟩ := Option.map_eq_some_iff.mp done'
          by_cases same : k = j
          · subst same
            rw [at?_table_set, at?_table_set, if_pos rfl, if_pos rfl]
            cases p with
            | nil =>
              rw [at?, at?, bind_at?_nil, bind_at?_nil] at laid
              rw [putAt_congr (laid.entries_eq bare) (laid.elements_eq bare), within'] at within
              cases within
              exact .inl rfl
            | cons i p =>
              refine ih ?_ within within'
              rw [at?_cons_getD, at?_cons_getD]
              exact laid
          · rw [at?_table_set_other same, at?_table_set_other same]
            exact laid

/-- The same lists stand at the same places. -/
def SameLists (m f : Tree) : Prop := ∀ p ts, at? p m = some (.list ts) ↔ at? p f = some (.list ts)

namespace SameLists

theorem elements_eq (same : SameLists m f) : m.elements = f.elements := by
  cases m with
  | list ts =>
    cases (same [] ts).mp rfl
    rfl
  | unset | flag | whole | real | text | table =>
    cases f with
    | list ts => cases (same [] ts).mpr rfl
    | unset | flag | whole | real | text | table => rfl

theorem at?_getD {d : Tree} (bare : d.entries = []) (single : ∀ ts, d ≠ .list ts) (t : Option Tree)
    (p : List String) (ts : List Tree) :
    at? p (t.getD d) = some (.list ts) ↔ t.bind (at? p) = some (.list ts) := by
  cases t with
  | some t => exact Iff.rfl
  | none =>
    cases p with
    | nil => exact ⟨fun same => absurd (Option.some.inj same) (single ts), nofun⟩
    | cons k p =>
      rw [Option.getD_none, at?, bare]
      exact Iff.rfl

theorem entry (same : SameLists m f) (d : Tree) (bare : d.entries = []) (single : ∀ ts, d ≠ .list ts)
    (k : String) : SameLists ((get? k m.entries).getD d) ((get? k f.entries).getD d) := by
  intro p ts
  rw [at?_getD bare single, at?_getD bare single]
  exact same (k :: p) ts

theorem table_set (same : SameLists m f) {u v : Tree} (below : SameLists u v) (k : String) :
    SameLists (.table (set k u m.entries)) (.table (set k v f.entries)) := by
  intro p ts
  cases p with
  | nil => exact ⟨nofun, nofun⟩
  | cons j p =>
    by_cases here : k = j
    · rw [at?_table_set, at?_table_set, if_pos here, if_pos here]
      exact below p ts
    · rw [at?_table_set_other here, at?_table_set_other here]
      exact same (j :: p) ts

mutual

theorem put : ∀ (t : Tree) {m f : Tree}, SameLists m f → ∀ k, SameLists (put m k t) (put f k t)
  | .table es, m, f, same, k => by
    rw [Tree.put, Tree.put]
    exact same.table_set (putAll es (same.entry (.table []) rfl nofun k)) k
  | .unset, m, f, same, k => same.table_set (fun _ _ => Iff.rfl) k
  | .flag _, m, f, same, k => same.table_set (fun _ _ => Iff.rfl) k
  | .whole _, m, f, same, k => same.table_set (fun _ _ => Iff.rfl) k
  | .real _, m, f, same, k => same.table_set (fun _ _ => Iff.rfl) k
  | .text _, m, f, same, k => same.table_set (fun _ _ => Iff.rfl) k
  | .list _, m, f, same, k => same.table_set (fun _ _ => Iff.rfl) k

theorem putAll : ∀ (es : List (String × Tree)) {m f : Tree}, SameLists m f →
    SameLists (putAll m es) (putAll f es)
  | [], m, f, same => by
    rw [Tree.putAll, Tree.putAll]
    exact same
  | (k, t) :: es, m, f, same => by
    rw [Tree.putAll, Tree.putAll]
    exact putAll es (put t same k)

end

/-- Positions lie in lists, so what can be put on the one tree can be put on the other. -/
theorem putAt (same : SameLists m f) (done : putAt t q m = some m') :
    ∃ f', Tree.putAt t q f = some f' ∧ SameLists m' f' := by
  induction q generalizing m f m' with
  | nil =>
    cases done
    exact ⟨t, rfl, fun _ _ => Iff.rfl⟩
  | cons step q ih =>
    cases step with
    | index i =>
      refine ⟨m', ?_, fun _ _ => Iff.rfl⟩
      rw [← done, putAt_index_eq, putAt_index_eq, same.elements_eq]
    | key k =>
      cases q with
      | nil =>
        cases done
        exact ⟨_, rfl, put t same k⟩
      | cons step q =>
        obtain ⟨u, within, rfl⟩ := Option.map_eq_some_iff.mp done
        obtain ⟨v, within', below⟩ := ih (same.entry .unset rfl nofun k) within
        refine ⟨_, ?_, same.table_set below k⟩
        rw [putAt_key_cons, within']
        rfl

end SameLists

/-- The paths part at a name, so neither leads to anything around the other. -/
def apart : List Step → List String → Bool
  | .key k :: q, j :: p => k ≠ j || apart q p
  | _, _ => false

theorem not_reaches_of_apart {p : List String} (away : apart q p = true) : reaches q p = false := by
  induction q generalizing p with
  | nil => simp [apart] at away
  | cons step q ih =>
    cases p with
    | nil => cases step <;> simp [apart] at away
    | cons j p =>
      cases step with
      | index i => simp [apart] at away
      | key k =>
        rw [reaches_key, Bool.and_eq_false_iff, decide_eq_false_iff_not]
        rw [apart, Bool.or_eq_true, decide_eq_true_eq] at away
        exact away.imp id ih

theorem at?_putAt_apart {p : List String} (away : apart q p = true)
    (done : putAt t q m = some m') : at? p m' = at? p m := by
  induction q generalizing p m m' with
  | nil => simp [apart] at away
  | cons step q ih =>
    cases p with
    | nil => cases step <;> simp [apart] at away
    | cons j p =>
      cases step with
      | index i => simp [apart] at away
      | key k =>
        by_cases same : k = j
        · subst same
          have below : apart q p = true := by simpa [apart] using away
          cases q with
          | nil => simp [apart] at below
          | cons step q =>
            obtain ⟨u, within, rfl⟩ := Option.map_eq_some_iff.mp done
            cases p with
            | nil => cases step <;> simp [apart] at below
            | cons i p => rw [at?_table_set, if_pos rfl, ih below within, at?_cons_getD, at?]
        · obtain ⟨u, rfl⟩ := putAt_key done
          rw [at?_table_set_other same]

/-- What is put reaches a setting of a section only in its own place, or as a table for the section. -/
def KeepsSection (sec name : String) (q : List Step) (t : Tree) : Prop :=
  reaches q [sec, name] = true → q = [.key sec, .key name] ∨ q = [.key sec] ∧ t.isTable = true

instance (sec name : String) (q : List Step) (t : Tree) : Decidable (KeepsSection sec name q t) :=
  inferInstanceAs (Decidable (_ → _))

theorem isSome_put_single {k : String} (present : (at? [k] m).isSome) (j : String) (t : Tree) :
    (at? [k] (put m j t)).isSome := by
  obtain ⟨u, put⟩ := put_eq m j t
  rw [put, at?_table_set]
  split
  · rfl
  · exact present

theorem isSome_putAll_single {k : String} (present : (at? [k] m).isSome) (es : List (String × Tree)) :
    (at? [k] (putAll m es)).isSome := by
  induction es generalizing m with
  | nil => rwa [putAll]
  | cons e es ih =>
    rw [putAll]
    exact ih (isSome_put_single present e.1 e.2)

theorem putAll_table (us es : List (String × Tree)) : ∃ fs, putAll (.table us) es = .table fs := by
  induction es generalizing us with
  | nil => exact ⟨us, by rw [putAll]⟩
  | cons e es ih =>
    obtain ⟨u, put⟩ := put_eq (.table us) e.1 e.2
    rw [putAll, put]
    exact ih _

/-- How a section is left: as it was, with a table put on it, or with something put in it by name. -/
theorem section_cases {sec name : String} (keeps : KeepsSection sec name q t)
    (done : putAt t q m = some m') :
    (∀ p, at? (sec :: p) m' = at? (sec :: p) m) ∨
      (∃ es, t = .table es ∧
        ∀ p, at? (sec :: p) m' = at? p (putAll ((get? sec m.entries).getD (.table [])) es)) ∨
      ∃ k u, ∀ p, at? (sec :: p) m' =
        at? p (.table (set k u ((get? sec m.entries).getD .unset).entries)) := by
  cases q with
  | nil => rcases keeps rfl with same | ⟨same, _⟩ <;> cases same
  | cons step q =>
    cases step with
    | index i => rcases keeps rfl with same | ⟨same, _⟩ <;> cases same
    | key j =>
      by_cases here : j = sec
      · subst here
        cases q with
        | nil =>
          rcases keeps (by simp [reaches]) with same | ⟨_, table⟩
          · cases same
          · obtain ⟨es, rfl⟩ := exists_of_isTable table
            cases done
            exact .inr (.inl ⟨es, rfl, fun p => by rw [put, at?_table_set, if_pos rfl]⟩)
        | cons step q =>
          cases step with
          | index i =>
            rcases keeps (by simp [reaches]) with same | ⟨same, _⟩ <;> cases same
          | key k =>
            obtain ⟨u, within, rfl⟩ := Option.map_eq_some_iff.mp done
            obtain ⟨v, rfl⟩ := putAt_key within
            exact .inr (.inr ⟨k, v, fun p => by rw [at?_table_set, if_pos rfl]⟩)
      · obtain ⟨u, rfl⟩ := putAt_key done
        exact .inl fun p => at?_table_set_other here p u m

theorem isSome_putAt_pair {sec name : String} (keeps : KeepsSection sec name q t)
    (present : (at? [sec, name] m).isSome) (done : putAt t q m = some m') :
    (at? [sec, name] m').isSome := by
  obtain ⟨u, there, inner⟩ := Option.bind_eq_some_iff.mp (Option.isSome_iff_exists.mp present).choose_spec
  rcases section_cases keeps done with kept | ⟨es, _, shape⟩ | ⟨k, v, shape⟩
  · rwa [kept]
  · rw [shape, there]
    exact isSome_putAll_single (Option.isSome_of_eq_some inner) es
  · rw [shape, there, at?_table_set]
    split
    · rfl
    · exact Option.isSome_of_eq_some inner

theorem table_putAt {sec name : String} (keeps : KeepsSection sec name q t)
    (present : ∃ es, at? [sec] m = some (.table es)) (done : putAt t q m = some m') :
    ∃ es, at? [sec] m' = some (.table es) := by
  obtain ⟨us, here⟩ := present
  rcases section_cases keeps done with kept | ⟨es, _, shape⟩ | ⟨k, v, shape⟩
  · exact ⟨us, (kept []).trans here⟩
  · rw [at?, bind_at?_nil] at here
    obtain ⟨fs, table⟩ := putAll_table us es
    rw [shape, here, Option.getD_some, table]
    exact ⟨fs, rfl⟩
  · exact ⟨_, shape []⟩

theorem putAll_cons_ne_list (m : Tree) (e : String × Tree) (es : List (String × Tree)) (ts : List Tree) :
    putAll m (e :: es) ≠ .list ts := by
  obtain ⟨u, put⟩ := put_eq m e.1 e.2
  obtain ⟨fs, table⟩ := putAll_table (set e.1 u m.entries) es
  rw [putAll, put, table]
  exact nofun

/-- A list in the place of a section was there before. -/
theorem list_putAt {sec name : String} (keeps : KeepsSection sec name q t) {ts : List Tree}
    (done : putAt t q m = some m') (list : at? [sec] m' = some (.list ts)) :
    at? [sec] m = some (.list ts) := by
  rcases section_cases keeps done with kept | ⟨es, _, shape⟩ | ⟨k, v, shape⟩
  · rwa [← kept]
  · rw [shape] at list
    cases es with
    | cons e es => exact absurd (Option.some.inj list) (putAll_cons_ne_list _ e es ts)
    | nil =>
      -- An empty table leaves what was there.
      rw [putAll] at list
      rw [at?, bind_at?_nil]
      cases there : get? sec m.entries with
      | none =>
        rw [there] at list
        cases list
      | some u =>
        rw [there] at list
        exact list
  · rw [shape] at list
    cases list

end Tree

/-- A source by itself. -/
def alone (source : List (String × Tree)) : Option Tree := overlay (.table []) source

/-- What a source by itself says at a path. -/
def said? (source : List (String × Tree)) (p : List String) : Option Tree :=
  Tree.stated ((alone source).bind (Tree.at? p))

open Settings.Tree (at? Over IsBare SameLists KeepsSection)

variable {root root' base m m' f f' : Tree} {source : List (String × Tree)}

theorem overlay_cons (root : Tree) (e : String × Tree) (source : List (String × Tree)) :
    overlay root (e :: source) = (e.2.putAt (path e.1) root).bind (overlay · source) := rfl

theorem overlay_relates {R : Tree → Tree → Prop} (start : R m f)
    (each : ∀ e ∈ source, ∀ {m f m' f'}, R m f → e.2.putAt (path e.1) m = some m' →
      e.2.putAt (path e.1) f = some f' → R m' f')
    (done : overlay m source = some m') (done' : overlay f source = some f') : R m' f' := by
  induction source generalizing m f with
  | nil =>
    cases done
    cases done'
    exact start
  | cons e source ih =>
    obtain ⟨m₁, first, done⟩ := Option.bind_eq_some_iff.mp done
    obtain ⟨f₁, first', done'⟩ := Option.bind_eq_some_iff.mp done'
    exact ih (each e List.mem_cons_self start first first')
      (fun e he => each e (List.mem_cons_of_mem _ he)) done done'

/-- What a source says by itself it says over any tree that has nothing below the path. Where it says
nothing, the tree is not changed or says nothing any more. -/
theorem over_overlay {p : List String} (nonempty : p ≠ []) (bare : IsBare (at? p root))
    (done : overlay root source = some m) (done' : alone source = some f) :
    Over (at? p root) (at? p m) (at? p f) := by
  refine overlay_relates (R := fun m f => Over (at? p root) (at? p m) (at? p f)) ?_
    (fun e _ _ _ _ _ laid => Tree.over_putAt bare laid) done done'
  obtain ⟨k, p, rfl⟩ := List.exists_cons_of_ne_nil nonempty
  exact .inr ⟨rfl, rfl⟩

/-- A source that can be laid over a tree with the same lists can be laid over this one. -/
theorem exists_overlay (same : SameLists m f) (done : overlay m source = some m') :
    ∃ f', overlay f source = some f' ∧ SameLists m' f' := by
  induction source generalizing m f with
  | nil =>
    cases done
    exact ⟨f, rfl, same⟩
  | cons e source ih =>
    obtain ⟨m₁, first, done⟩ := Option.bind_eq_some_iff.mp done
    obtain ⟨f₁, first', same⟩ := same.putAt first
    obtain ⟨f', later, same⟩ := ih same done
    exact ⟨f', by rw [overlay_cons, first', Option.bind_some, later], same⟩

theorem at?_overlay_apart {p : List String} (away : ∀ e ∈ source, Tree.apart (path e.1) p = true)
    (done : overlay root source = some root') : at? p root' = at? p root :=
  overlay_keeps (P := fun m => at? p m = at? p root) rfl
    (fun e he _ _ kept put => (Tree.at?_putAt_apart (away e he) put).trans kept) done

variable {sec name : String}

theorem table_overlay (keeps : ∀ e ∈ source, KeepsSection sec name (path e.1) e.2)
    (present : ∃ es, at? [sec] root = some (.table es)) (done : overlay root source = some root') :
    ∃ es, at? [sec] root' = some (.table es) :=
  overlay_keeps (P := fun m => ∃ es, at? [sec] m = some (.table es)) present
    (fun e he _ _ => Tree.table_putAt (keeps e he)) done

theorem isSome_overlay_pair (keeps : ∀ e ∈ source, KeepsSection sec name (path e.1) e.2)
    (present : (at? [sec, name] root).isSome) (done : overlay root source = some root') :
    (at? [sec, name] root').isSome :=
  overlay_keeps (P := fun m => (at? [sec, name] m).isSome) present
    (fun e he _ _ => Tree.isSome_putAt_pair (keeps e he)) done

theorem list_overlay (keeps : ∀ e ∈ source, KeepsSection sec name (path e.1) e.2) {ts : List Tree}
    (done : overlay root source = some root') (list : at? [sec] root' = some (.list ts)) :
    at? [sec] root = some (.list ts) :=
  overlay_keeps (P := fun m => at? [sec] m = some (.list ts) → at? [sec] root = some (.list ts)) id
    (fun e he _ _ before put list => before (Tree.list_putAt (keeps e he) put list)) done list

end TraceTally.Settings
