import Mathlib.Tactic.MkIffOfInductiveProp
import TraceTally.Proofs.PlainNames
import TraceTally.Proofs.SingleSettings

/-!
# Where each setting comes from

The variables of the environment are laid over the document, and the document over the defaults. As long
as no two variables are for one path, and none is for a section, for a position in one or for a place
within a setting, each setting is read from its own variable, else from its own place in the document,
else it has its default; what else the sources say does not count. Only a section that the document gives
as a list is read by position, and is lost as a whole to a variable for one of its settings. All of this
is so in whatever order the keys of the sources are laid.
-/

namespace TraceTally

namespace Settings

open Settings.Tree (at?)

/-- The value of the variable for a path. -/
def textFor? (env : List (String × String)) (p : List String) : Option String :=
  (env.find? fun v => pathOf? v.1 = some (p.map .key)).map Prod.snd

/-- At most one variable for a path, and each for a setting or for what has to do with none. -/
@[mk_iff]
structure Unambiguous (env : List (String × String)) : Prop where
  distinct : (env.filterMap fun v => pathOf? v.1).Nodup
  targets : ∀ v ∈ env, ∀ q ∈ pathOf? v.1,
    (∃ x : Setting, q = x.path.map .key) ∨ ∀ x : Setting, Tree.apart q x.path = true

instance (env : List (String × String)) : Decidable (Unambiguous env) :=
  decidable_of_iff' _ (unambiguous_iff env)

/-- Sections are given as tables, and no setting is given an empty one. -/
@[mk_iff]
structure WellShaped (file : List (String × Tree)) : Prop where
  sections : ∀ e ∈ file, ∀ x : Setting, ∀ sec ∈ x.section?,
    Tree.KeepsSection sec x.name (path e.1) e.2
  values : ∀ x : Setting, ((alone file).bind (at? x.path)).all (!·.isEmptyTable)

instance (file : List (String × Tree)) : Decidable (WellShaped file) :=
  decidable_of_iff' _ (wellShaped_iff file)

end Settings

namespace Setting

open Settings (lenient Unambiguous textFor? alone said? variableValue)
open Settings.Tree (at?)

/-- The value by the sources: that of the variable for the setting if there is one, else what the
document says at its path, else the default. -/
def determined (x : Setting) (file : List (String × Settings.Tree)) (env : List (String × String)) :
    Option x.Value :=
  match textFor? env x.path, said? file x.path with
  | some t, _ => x.read (variableValue t)
  | none, some t => x.read t
  | none, none => x.default

/-- The setting has a variable, or belongs to no section that the document gives as a list. -/
def ByPath (x : Setting) (file : List (String × Settings.Tree)) (env : List (String × String)) : Prop :=
  textFor? env x.path = none → ∀ sec ∈ x.section?, ((alone file).bind (at? [sec])).all (!·.isList)

instance (x : Setting) (file : List (String × Settings.Tree)) (env : List (String × String)) :
    Decidable (x.ByPath file env) := inferInstanceAs (Decidable (_ → _))

/-- Two pairs of sources give the setting the same variable, or none and the same in the document. -/
def SameSource (x : Setting) (file : List (String × Settings.Tree)) (env : List (String × String))
    (file' : List (String × Settings.Tree)) (env' : List (String × String)) : Prop :=
  textFor? env x.path = textFor? env' x.path ∧
    (textFor? env x.path = none →
      Option.Rel Settings.Tree.Reordered (said? file x.path) (said? file' x.path))

theorem apart_of_ne {x y : Setting} (other : x ≠ y) :
    Settings.Tree.apart (x.path.map .key) y.path = true := by
  have all : ∀ x y : Setting, x ≠ y → Settings.Tree.apart (x.path.map .key) y.path = true := by
    decide +kernel
  exact all x y other

theorem path_ne_nil (x : Setting) : x.path ≠ [] := by simp [path]

end Setting

namespace Settings

open Settings.Tree (at?)

variable {env : List (String × String)} {environment : List (String × Tree)} {root root' : Tree}

theorem map_path_ofEnvironment (env : List (String × String)) :
    (ofEnvironment env).map (fun e => path e.1) = env.filterMap fun v => pathOf? v.1 := by
  rw [ofEnvironment, List.map_filterMap]
  simp only [Option.map_map]
  rfl

theorem exists_variable (order : (ofEnvironment env).Perm environment) {e : String × Tree}
    (mem : e ∈ environment) : ∃ v ∈ env, pathOf? v.1 = some (path e.1) := by
  have target : path e.1 ∈ (ofEnvironment env).map fun e => path e.1 :=
    List.mem_map_of_mem (order.mem_iff.mpr mem)
  rwa [map_path_ofEnvironment, List.mem_filterMap] at target

namespace Unambiguous

variable {x : Setting}

theorem apart (clear : Unambiguous env) (order : (ofEnvironment env).Perm environment)
    {e : String × Tree} (mem : e ∈ environment) (other : path e.1 ≠ x.path.map .key) :
    Tree.apart (path e.1) x.path = true := by
  obtain ⟨v, hv, target⟩ := exists_variable order mem
  rcases clear.targets v hv _ target with ⟨y, same⟩ | apart
  · rw [same]
    exact Setting.apart_of_ne fun here => other (here ▸ same)
  · exact apart x

/-- No variable touches a section but for a setting in it. -/
theorem keepsSection (clear : Unambiguous env) (order : (ofEnvironment env).Perm environment)
    {sec : String} (within : x.section? = some sec) :
    ∀ e ∈ environment, Tree.KeepsSection sec x.name (path e.1) e.2 := by
  intro e mem reached
  have shape := Setting.path_of_section within
  by_cases same : path e.1 = x.path.map .key
  · exact .inl (by rw [same, shape]; rfl)
  · have away := Tree.not_reaches_of_apart (clear.apart order mem same)
    rw [shape, reached] at away
    cases away

/-- A variable for the setting stands in its place, and without one nothing changes there. -/
theorem at?_overlay (clear : Unambiguous env) (order : (ofEnvironment env).Perm environment)
    (x : Setting) (done : overlay root environment = some root') :
    at? x.path root' = ((textFor? env x.path).map variableValue).or (at? x.path root) := by
  cases found : textFor? env x.path with
  | none =>
    refine at?_overlay_apart (fun e mem => clear.apart order mem fun same => ?_) done
    obtain ⟨v, hv, target⟩ := exists_variable order mem
    rw [textFor?, Option.map_eq_none_iff, List.find?_eq_none] at found
    exact found v hv (by simpa [same] using target)
  | some t =>
    obtain ⟨⟨name, t⟩, here, rfl⟩ := Option.map_eq_some_iff.mp found
    have target : pathOf? name = some (x.path.map .key) := by simpa using List.find?_some here
    obtain ⟨setting, named, same⟩ := Option.map_eq_some_iff.mp target
    have mem : (setting, variableValue t) ∈ environment :=
      order.mem_iff.mp (List.mem_filterMap.mpr
        ⟨(name, t), List.mem_of_find?_eq_some here, by simp only [named, Option.map_some]⟩)
    obtain ⟨before, after, rfl⟩ := List.append_of_mem mem
    obtain ⟨m, m', put, done⟩ := exists_put_of_overlay done
    -- No later variable is for the same path.
    have later : ∀ e ∈ after, path e.1 ≠ x.path.map .key := by
      have distinct := clear.distinct
      rw [← map_path_ofEnvironment, (order.map _).nodup_iff, List.map_append, List.map_cons] at distinct
      have new := (List.nodup_cons.mp (List.nodup_append.mp distinct).2.1).1
      exact fun e he there => new (List.mem_map.mpr ⟨e, he, there.trans same.symm⟩)
    have stands : at? x.path m' = some (variableValue t) :=
      Tree.at?_putAt_self (isLeaf_variableValue t) x.path_ne_nil (by rw [← same]; exact put)
    rw [at?_overlay_apart (fun e he => clear.apart order (by simp [he]) (later e he)) done, stands]
    rfl

end Unambiguous

end Settings

namespace Setting

open Settings (lenient Unambiguous textFor? alone said? overlay tree variableValue ofEnvironment merge
  merge_eq_some)
open Settings.Tree (at? stated IsBare SameLists)

theorem isBare_default (x : Setting) : IsBare (at? x.path (.table (tree {}))) := by
  cases x <;> exact ⟨rfl, rfl⟩

theorem choose_default (x : Setting) : x.choose (at? x.path (.table (tree {}))) = x.default := by
  cases x <;> decide +kernel

/-- No list stands anywhere. -/
def NoLists (t : Settings.Tree) : Prop := ∀ p ts, at? p t ≠ some (.list ts)

theorem noLists_table {es : List (String × Settings.Tree)} (each : ∀ e ∈ es, NoLists e.2) :
    NoLists (.table es) := by
  intro p ts list
  cases p with
  | nil => cases list
  | cons k p =>
    rw [at?, Settings.Tree.entries] at list
    obtain ⟨t, found, below⟩ := Option.bind_eq_some_iff.mp list
    exact each (k, t) (Entries.mem_of_get? found) p ts below

theorem noLists_branch (es : List (String × Toml.Leaf)) :
    ∀ e ∈ Settings.branch es, NoLists e.2 := by
  rw [Settings.branch, List.forall_mem_map]
  rintro ⟨k, _ | _⟩ _ (_ | ⟨_, _⟩) ts <;> exact nofun

theorem noLists_tree (s : Settings) : NoLists (.table (tree s)) := by
  refine noLists_table fun e mem => ?_
  rw [tree, List.mem_append, List.mem_append] at mem
  rcases mem with (token | top) | below
  · split at token
    · cases List.mem_singleton.mp token
      rintro (_ | ⟨_, _⟩) ts <;> exact nofun
    · cases token
  · exact noLists_branch _ e top
  · obtain ⟨⟨name, es⟩, _, rfl⟩ := List.mem_map.mp below
    exact noLists_table (noLists_branch es)

/-- There is no list among the defaults. -/
theorem sameLists_default : SameLists (.table (tree {})) (.table []) := by
  intro p ts
  exact ⟨fun list => absurd list (noLists_tree {} p ts), fun list =>
    absurd list (noLists_table (fun _ none => absurd none List.not_mem_nil) p ts)⟩

theorem choose_stated {x : Setting} {t : Option Settings.Tree} {v : x.Value}
    (value : x.choose t = some v) : x.choose (stated t) = some v := by
  cases same : stated t with
  | some u => rwa [← Settings.Tree.eq_of_stated same]
  | none =>
    rcases Settings.Tree.stated_eq_none.mp same with rfl | rfl
    · exact value
    · cases x <;> cases value

variable {x : Setting} {s s' : Settings} {file file' environment : List (String × Settings.Tree)}
  {env env' : List (String × String)} {v v' : x.Value} {base t : Settings.Tree}

/-- In the place of a setting is what the document says there; where it says nothing, the setting has
its default. -/
theorem over_default (x : Setting) (done : overlay (.table (tree {})) file = some base) :
    at? x.path base = (alone file).bind (at? x.path) ∨
      said? file x.path = none ∧ x.choose (at? x.path base) = x.default := by
  obtain ⟨own, read, -⟩ := Settings.exists_overlay sameLists_default done
  have here : (alone file).bind (at? x.path) = at? x.path own :=
    congrArg (fun t : Option Settings.Tree => t.bind (at? x.path)) read
  rw [said?, here]
  rcases Settings.over_overlay x.path_ne_nil x.isBare_default done read with same | ⟨none, same⟩
  · exact .inl same
  · exact .inr ⟨none, by rw [same, choose_default]⟩

theorem choose_of_overlay (done : overlay (.table (tree {})) file = some base)
    (value : x.choose (at? x.path base) = some v) : x.choose (said? file x.path) = some v := by
  rcases x.over_default done with same | ⟨none, same⟩
  · rw [same] at value
    exact choose_stated value
  · rw [same] at value
    exact (congrArg x.choose none).trans value

theorem choose_overlay (done : overlay (.table (tree {})) file = some base)
    (value : ((alone file).bind (at? x.path)).all (!·.isEmptyTable)) :
    x.choose (at? x.path base) = x.choose (said? file x.path) := by
  rcases x.over_default done with same | ⟨none, same⟩
  · rw [same, said?, Settings.Tree.stated_of_all value]
  · rw [same, none]
    rfl

theorem determined_of_variable {t : String} (found : textFor? env x.path = some t) :
    x.determined file env = x.read (variableValue t) := by
  rw [determined, found]

theorem determined_of_no_variable (missing : textFor? env x.path = none) :
    x.determined file env = x.choose (said? file x.path) := by
  rw [determined, missing]
  cases said? file x.path <;> rfl

/-- A choice can be the only entry of a table, but no setting is read from more of one. -/
theorem read_reordered {u : Settings.Tree} (x : Setting) (order : t.Reordered u) :
    x.read t = x.read u := by
  have choice {es fs : List (String × Settings.Tree)}
      (names : (es.map Prod.fst).Perm (fs.map Prod.fst)) :
      lenient.choice (.table es) = lenient.choice (.table fs) := by
    have count := names.length_eq
    rcases es with _ | ⟨e, _ | ⟨e', es⟩⟩ <;> rcases fs with _ | ⟨f, _ | ⟨f', fs⟩⟩ <;>
      simp_all [lenient]
  have table {es fs : List (String × Settings.Tree)}
      (names : (es.map Prod.fst).Perm (fs.map Prod.fst)) : x.read (.table es) = x.read (.table fs) := by
    cases x with
    | onExhausted => exact congrArg (Option.bind · _) (choice names)
    | listenAddress | adminAddress | maxMessageSize | authToken | recordLifetime | capacity | interval
    | maxAttempts | initialDelay | storageType | endpoint | database | user | password => rfl
  induction order with
  | refl => rfl
  | order same => exact table (same.map Prod.fst)
  | entry before after k => exact table (by simp)
  | trans _ _ first second => exact first.trans second

theorem choose_reordered {t u : Option Settings.Tree} (x : Setting)
    (order : Option.Rel Settings.Tree.Reordered t u) : x.choose t = x.choose u := by
  cases order with
  | none => rfl
  | some order => exact x.read_reordered order

theorem SameSource.determined_eq (same : x.SameSource file env file' env') :
    x.determined file env = x.determined file' env' := by
  obtain ⟨inEnvironment, inDocument⟩ := same
  cases found : textFor? env x.path with
  | some t => rw [determined_of_variable found, determined_of_variable (inEnvironment ▸ found)]
  | none =>
    rw [determined_of_no_variable found, determined_of_no_variable (inEnvironment ▸ found),
      x.choose_reordered (inDocument found)]

section

variable (clear : Unambiguous env) (order : (ofEnvironment env).Perm environment)
  (merged : merge file environment = some t)

include clear order merged

/-- Where a setting is given by its path, its section is not read by position. -/
theorem ByPath.no_list (byPath : x.ByPath file env) {sec : String} (within : x.section? = some sec)
    (ts : List Settings.Tree) : at? [sec] t ≠ some (.list ts) := by
  intro list
  obtain ⟨base, below, above⟩ := merge_eq_some.mp merged
  cases found : textFor? env x.path with
  | none =>
    have there := Settings.list_overlay (clear.keepsSection order within) above list
    obtain ⟨own, read, same⟩ := Settings.exists_overlay sameLists_default below
    have noList := byPath found sec within
    have own_list : (alone file).bind (at? [sec]) = some (.list ts) :=
      Option.bind_eq_some_iff.mpr ⟨own, read, (same [sec] ts).mp there⟩
    rw [own_list] at noList
    cases noList
  | some text =>
    -- Nothing stands below a list, but the variable stands at the path.
    have stands := clear.at?_overlay order x above
    rw [path_of_section within, Settings.Tree.at?_pair, list, ← path_of_section within, found] at stands
    cases stands

/-- Each setting that is decoded is the one by its sources. -/
theorem determined_of_decode? (byPath : x.ByPath file env)
    (decoded : Settings.decode? lenient t = some s) (value : x.get s = some v) :
    x.determined file env = some v := by
  obtain ⟨es, rfl⟩ := Settings.merge_table merged
  have chosen : x.choose (at? x.path (.table es)) = some v :=
    choose_at?_of_decode? decoded (fun sec within ts here =>
      byPath.no_list clear order merged within ts (by rw [Settings.Tree.at?_single, here])) value
  obtain ⟨base, below, above⟩ := merge_eq_some.mp merged
  rw [clear.at?_overlay order x above] at chosen
  cases found : textFor? env x.path with
  | some text =>
    rw [found] at chosen
    exact (determined_of_variable found).trans chosen
  | none =>
    rw [found] at chosen
    exact (determined_of_no_variable found).trans (choose_of_overlay below chosen)

/-- Well shaped sources have in the place of a setting what it is by them. -/
theorem choose_merge (value : ((alone file).bind (at? x.path)).all (!·.isEmptyTable)) :
    x.choose (at? x.path t) = x.determined file env := by
  obtain ⟨base, below, above⟩ := merge_eq_some.mp merged
  rw [clear.at?_overlay order x above]
  cases found : textFor? env x.path with
  | some text => exact (determined_of_variable found).symm
  | none => exact (choose_overlay below value).trans (determined_of_no_variable found).symm

end

theorem isSome_get_eq (same : s.storage.type = s'.storage.type) (x : Setting) :
    (x.get s).isSome = (x.get s').isSome := by
  have server {α : Type} (f : String → String → Option String → Option String → α) :
      (s.storage.ofServer? f).isSome = (s'.storage.ofServer? f).isSome := by
    cases first : s.storage <;> cases second : s'.storage <;>
      simp_all [StorageSettings.type, StorageSettings.ofServer?]
  cases x with
  | listenAddress | adminAddress | maxMessageSize | authToken | recordLifetime | capacity | interval
  | maxAttempts | initialDelay | onExhausted | storageType => rfl
  | endpoint | database | user | password => exact server _

/-- Settings that have the same values wherever both have one are the same. -/
theorem eq_of_common (same : ∀ (x : Setting) v v', x.get s = some v → x.get s' = some v' → v = v') :
    s = s' := by
  have type : s.storage.type = s'.storage.type := same .storageType _ _ rfl rfl
  refine eq_of_get fun x => ?_
  have both := isSome_get_eq type x
  cases value : x.get s with
  | none =>
    rw [value] at both
    exact (Option.isNone_iff_eq_none.mp (by simpa using both.symm)).symm
  | some v =>
    rw [value] at both
    obtain ⟨v', value'⟩ := Option.isSome_iff_exists.mp both.symm
    rw [value', same x v v' value value']

end Setting

namespace Settings

open Settings.Tree (at?)

variable {files : String → Option String} {name : Option String} {env : List (String × String)}
  {file environment : List (String × Tree)} {s : Settings} {t : Tree}

theorem section_merge (clear : Unambiguous env) (order : (ofEnvironment env).Perm environment)
    (shaped : WellShaped file) (merged : merge file environment = some t) {x : Setting} {sec : String}
    (within : x.section? = some sec)
    (below : ∃ es, at? [sec] (.table (tree {})) = some (.table es)) :
    ∃ es, at? [sec] t = some (.table es) := by
  obtain ⟨base, below', above⟩ := merge_eq_some.mp merged
  exact table_overlay (clear.keepsSection order within)
    (table_overlay (fun e he => shaped.sections e he x sec within) below below') above

/-- Well shaped sources are decoded, if settings have their values by them. -/
theorem decode?_of_determined (clear : Unambiguous env)
    (order : (ofEnvironment env).Perm environment) (shaped : WellShaped file)
    (merged : merge file environment = some t)
    (each : ∀ (x : Setting) v, x.get s = some v → x.determined file env = some v) :
    decode? lenient t = some s := by
  have typed : (at? ["storage", "type"] t).isSome := by
    obtain ⟨base, below', above⟩ := merge_eq_some.mp merged
    exact isSome_overlay_pair (clear.keepsSection (x := .storageType) order rfl)
      (isSome_overlay_pair (fun e he => shaped.sections e he .storageType "storage" rfl) rfl below')
      above
  have sections : ∀ sec ∈ ["flush", "retry", "storage"], ∃ fs, at? [sec] t = some (.table fs) := by
    simp only [List.forall_mem_cons]
    exact ⟨section_merge clear order shaped merged (x := .capacity) rfl ⟨_, rfl⟩,
      section_merge clear order shaped merged (x := .maxAttempts) rfl ⟨_, rfl⟩,
      section_merge clear order shaped merged (x := .storageType) rfl ⟨_, rfl⟩, nofun⟩
  have chosen (x : Setting) (v : x.Value) (value : x.get s = some v) :
      x.choose (at? x.path t) = some v :=
    (Setting.choose_merge clear order merged (shaped.values x)).trans (each x v value)
  obtain ⟨es, rfl⟩ := merge_table merged
  simp only [Tree.at?_single] at sections
  exact Setting.decode?_of_chosen chosen sections typed

theorem distinct_of_document? {document : List (String × Tree)}
    (read : document? files name = some document) : (Tree.table document).Distinct := by
  cases name with
  | none =>
    cases read
    exact .table List.nodup_nil nofun
  | some name =>
    obtain ⟨text, _, read⟩ := Option.bind_eq_some_iff.mp read
    exact distinct_ofDocument read

/-- In a document of plain names every name leads to its own place, whatever the order. -/
theorem plain_document {r : Except LoadError Settings} (loaded : Loads files name env (some file) r)
    (plain : ∀ e ∈ file, IsPlain e.1) :
    alone file = some (.table file) ∧
      ∀ {file' r'}, Loads files name env (some file') r' → ∀ p,
        Option.Rel Tree.Reordered (said? file p) (said? file' p) := by
  cases loaded with
  | laid read order _ =>
    have distinct := order.distinct (distinct_of_document? read)
    have own := alone_of_distinct distinct plain
    refine ⟨own, ?_⟩
    intro file' r' loaded' p
    cases loaded' with
    | laid read' order' _ =>
      cases read.symm.trans read'
      have between := order.symm.trans order'
      have plain' : ∀ e ∈ file', IsPlain e.1 := by
        intro e he
        have there : e.1 ∈ file.map Prod.fst := between.names.mem_iff.mpr (List.mem_map_of_mem he)
        obtain ⟨e', he', same⟩ := List.mem_map.mp there
        exact same ▸ plain e' he'
      rw [said?, said?, own, alone_of_distinct (between.distinct distinct) plain']
      exact Tree.Reordered.stated (between.at? distinct p)

theorem determined_of_loads (clear : Unambiguous env) (loaded : Loads files name env (some file) (.ok s))
    {x : Setting} {v : x.Value} (byPath : x.ByPath file env) (value : x.get s = some v) :
    x.determined file env = some v := by
  obtain ⟨_, _, _, _, same, _, _, order, merged, decoded, _⟩ := loaded.exists_layers
  cases same
  exact Setting.determined_of_decode? clear order merged byPath decoded value

/-- If settings that break no rule have their values by the sources, it is they that are loaded. -/
theorem ok_of_determined {r : Except LoadError Settings} (clear : Unambiguous env)
    (loaded : Loads files name env (some file) r) (shaped : WellShaped file)
    (within : r ≠ .error .outOfRange) (fine : s.fault? = none)
    (each : ∀ (x : Setting) v, x.get s = some v → x.determined file env = some v) : r = .ok s := by
  cases loaded with
  | laid read order order' =>
    unfold loadLayers at within ⊢
    cases merged : merge file _ with
    | none =>
      rw [merged] at within
      exact absurd rfl within
    | some t =>
      simp only [decode?_of_determined clear order' shaped merged each]
      exact checked_eq_ok.mpr ⟨rfl, fine⟩

/-- Settings that are loaded are, one by one, the ones by their sources, where the place of a setting in
a document is found by names unless these have dots or brackets. Whatever else the sources say, for other
settings or for none, does not count: another load gives a setting the same value if it has the same
source for it, and if this goes for all of them, it gives the same settings, and does so if its document
is well shaped and no position lies before the start of a list. No rule is broken. -/
theorem load_by_sources (clear : Unambiguous env) (loaded : Loads files name env (some file) (.ok s)) :
    ((∀ e ∈ file, IsPlain e.1) → alone file = some (.table file) ∧
      ∀ {file' r}, Loads files name env (some file') r → ∀ p,
        Option.Rel Tree.Reordered (said? file p) (said? file' p)) ∧
      (∀ (x : Setting) v, x.ByPath file env → x.get s = some v → x.determined file env = some v) ∧
      (∀ {files' name' env' file' r}, Unambiguous env' → Loads files' name' env' (some file') r →
        (∀ s', r = .ok s' → ∀ (x : Setting) v v', x.ByPath file env → x.ByPath file' env' →
          x.SameSource file env file' env' → x.get s = some v → x.get s' = some v' → v = v') ∧
        ((∀ x : Setting, x.ByPath file env ∧ x.ByPath file' env' ∧
            x.SameSource file env file' env') →
          (∀ s', r = .ok s' → s = s') ∧
          (WellShaped file' → r ≠ .error .outOfRange → r = .ok s))) ∧
      s.fault? = none := by
  refine ⟨plain_document loaded, fun x v => determined_of_loads clear loaded, ?_, loaded.fault?⟩
  intro files' name' env' file' r clear' loaded'
  have one (s' : Settings) (result : r = .ok s') (x : Setting) (v v' : x.Value)
      (byPath : x.ByPath file env) (byPath' : x.ByPath file' env')
      (same : x.SameSource file env file' env') (first : x.get s = some v)
      (second : x.get s' = some v') : v = v' := by
    have here := determined_of_loads clear loaded byPath first
    have there := determined_of_loads clear' (result ▸ loaded') byPath' second
    exact Option.some.inj (here.symm.trans (same.determined_eq.trans there))
  refine ⟨one, fun all => ⟨fun s' result => Setting.eq_of_common fun x v v' => ?_, ?_⟩⟩
  · obtain ⟨byPath, byPath', same⟩ := all x
    exact one s' result x v v' byPath byPath' same
  · intro shaped within
    refine ok_of_determined clear' loaded' shaped within loaded.fault? fun x v value => ?_
    obtain ⟨byPath, -, same⟩ := all x
    exact same.determined_eq ▸ determined_of_loads clear loaded byPath value

/-- The interval of a variable, the capacity of a document and the attempts by default. What a document
and a variable say about a colour does not count, and the variable may as well not be there. -/
theorem load_by_sources_colours :
    let files := fun name => if name = "app.toml" then
      some "colour = 7\n[flush]\nbuffer_size = 5\n" else none
    let env' := [("SPANSTAT_FLUSH__INTERVAL", "2s")]
    let env := ("SPANSTAT_FLUSH__COLOUR", "red") :: env'
    let s : Settings := { flush := ⟨5, .ofSeconds 2⟩ }
    Unambiguous env ∧ load files (some "app") env = .ok s ∧
      (∃ file, document? files (some "app") = some file ∧ WellShaped file ∧
        alone file = some (.table file) ∧
        Setting.interval.determined file env = some (.ofSeconds 2) ∧
        Setting.capacity.determined file env = some 5 ∧
        Setting.maxAttempts.determined file env = some 1) ∧
      load files (some "app") env' = .ok s := by
  intro files env' env s
  have clear : Unambiguous env := by decide +kernel
  have clear' : Unambiguous env' := by decide +kernel
  have loaded : load files (some "app") env = .ok s := by decide +kernel
  have inRange : load files (some "app") env' ≠ .error .outOfRange := by decide +kernel
  have shape : (document? files (some "app")).any fun file =>
      (∀ e ∈ file, IsPlain e.1) ∧ WellShaped file ∧
        ∀ x : Setting, x.ByPath file env ∧ x.ByPath file env' := by decide +kernel
  have same : ∀ x : Setting, textFor? env x.path = textFor? env' x.path := by decide +kernel
  obtain ⟨file, read⟩ : ∃ file, document? files (some "app") = some file :=
    Option.isSome_iff_exists.mp (by decide +kernel)
  rw [read, Option.any_some, decide_eq_true_eq] at shape
  obtain ⟨plain, shaped, byPath⟩ := shape
  have loads := loads_of_load loaded
  have loads' := loads_of_load (rfl : load files (some "app") env' = load files (some "app") env')
  rw [read] at loads loads'
  obtain ⟨names, each, other, -⟩ := load_by_sources clear loads
  obtain ⟨-, unchanged⟩ := other clear' loads'
  exact ⟨clear, loaded, ⟨file, read, shaped, (names plain).1, each .interval _ (byPath _).1 rfl,
    each .capacity _ (byPath _).1 rfl, each .maxAttempts _ (byPath _).1 rfl⟩,
    (unchanged fun x => ⟨(byPath x).1, (byPath x).2, same x, fun _ =>
      Tree.Reordered.rel_refl _⟩).2 shaped inRange⟩

/-- A section that is a list is read by position, although its settings are not at their paths; and a
variable for one of them takes the others away. A variable for a position makes such a list. -/
theorem list_section_not_by_path :
    let files := fun name => if name = "app.toml" then some "flush = [5]\n" else none
    let env := [("SPANSTAT_FLUSH__INTERVAL", "2s")]
    let env' := [("SPANSTAT_FLUSH[0]", "5")]
    Unambiguous [] ∧ Unambiguous env ∧ textFor? env Setting.capacity.path = none ∧
      (∃ file, document? files (some "app") = some file ∧
        Setting.capacity.determined file [] = some 1000) ∧
      (∃ s, load files (some "app") [] = .ok s ∧ Setting.capacity.get s = some 5) ∧
      (∃ s, load files (some "app") env = .ok s ∧ Setting.capacity.get s = some 1000) ∧
      textFor? env' Setting.capacity.path = none ∧ Setting.capacity.determined [] env' = some 1000 ∧
      ∃ s, load files none env' = .ok s ∧ Setting.capacity.get s = some 5 := by
  intro files env env'
  have byPath : (document? files (some "app")).map (Setting.capacity.determined · []) =
      some (some 1000) := by decide +kernel
  exact ⟨by decide, by decide +kernel, by decide +kernel, Option.map_eq_some_iff.mp byPath,
    ⟨{ flush := { capacity := 5 } }, by decide +kernel, rfl⟩,
    ⟨{ flush := { interval := .ofSeconds 2 } }, by decide +kernel, rfl⟩,
    by decide +kernel, by decide +kernel, ⟨{ flush := { capacity := 5 } }, by decide +kernel, rfl⟩⟩

end Settings

end TraceTally
