import TraceTally.Proofs.KeyOrder
import TraceTally.Proofs.Sources
import TraceTally.Proofs.TomlNames

/-!
# Plain names

Where no name stands twice in a table, the order of its entries does not change what stands where. So a
document, laid over nothing, is the tree that it is written as in any order of its keys, unless a name
with dots or brackets stands for a path.
-/

namespace TraceTally.Settings

open Entries (get? set set_new)

namespace Tree

/-- Entries that are put behind others of other names. -/
theorem putAll_new {ts : List (String × Tree)}
    (each : ∀ e ∈ ts, ∀ us, get? e.1 us = none → put (.table us) e.1 e.2 = .table (us ++ [e]))
    {us : List (String × Tree)} (names : (us.map Prod.fst ++ ts.map Prod.fst).Nodup) :
    putAll (.table us) ts = .table (us ++ ts) := by
  induction ts generalizing us with
  | nil => rw [putAll, List.append_nil]
  | cons e ts ih =>
    obtain ⟨first, later⟩ := List.forall_mem_cons.mp each
    have new : e.1 ∉ us.map Prod.fst := fun mem =>
      (List.nodup_append.mp names).2.2 e.1 mem e.1 (by simp) rfl
    have moved : ((us ++ [e]).map Prod.fst ++ ts.map Prod.fst).Nodup := by simpa using names
    rw [putAll, first us (Entries.get?_eq_none_of_not_mem new), ih later moved, List.append_assoc,
      List.singleton_append]

/-- No name twice in a table, nor in a table below it; what stands in a list may be anything. -/
inductive Distinct : Tree → Prop
  | table {es : List (String × Tree)} (names : (es.map Prod.fst).Nodup)
      (values : ∀ e ∈ es, e.2.Distinct) : Distinct (.table es)
  | leaf {t : Tree} (leaf : t.IsLeaf) : Distinct t

theorem distinct_table {es : List (String × Tree)} :
    (table es).Distinct ↔ Entries.Distinct Distinct es := by
  constructor
  · rintro (⟨names, values⟩ | leaf)
    · exact ⟨names, values⟩
    · exact absurd rfl (leaf es)
  · exact fun distinct => .table distinct.names distinct.values

theorem distinct_ofToml {v : Toml.Value} (distinct : v.Distinct) : (ofToml .asText v).Distinct := by
  induction distinct with
  | leaf leaf =>
    rename_i v
    refine .leaf ?_
    cases v with
    | table es => exact absurd rfl (leaf es)
    | text | whole | real | flag | dateTime | list => exact nofun
  | table names _ ih =>
    rw [ofToml, tableOfToml_eq_map]
    refine .table ?_ ?_
    · simpa [Function.comp_def] using names
    · rw [List.forall_mem_map]
      exact ih

/-- A tree with no name twice stands as it is where nothing was. -/
theorem put_new {t : Tree} (distinct : t.Distinct) {k : String} {us : List (String × Tree)}
    (new : get? k us = none) : put (.table us) k t = .table (us ++ [(k, t)]) := by
  induction distinct generalizing k us with
  | leaf leaf => rw [put_of_isLeaf leaf, entries, set_new new]
  | table names values ih =>
    rw [put, entries, new, Option.getD_none, putAll_new (fun e he us new => ih e he new) (by simpa),
      List.nil_append, set_new new]

namespace Reordered

variable {t u : Tree}

theorem distinct (reordered : Reordered t u) (distinct : t.Distinct) : u.Distinct := by
  induction reordered with
  | refl => exact distinct
  | order same =>
    obtain ⟨names, values⟩ := distinct_table.mp distinct
    exact .table ((same.map Prod.fst).nodup names) fun e he => values e (same.mem_iff.mpr he)
  | entry before after k _ ih =>
    obtain ⟨names, values⟩ := distinct_table.mp distinct
    simp only [List.forall_mem_append, List.forall_mem_cons] at values
    obtain ⟨front, here, back⟩ := values
    refine .table (by simpa using names) ?_
    simp only [List.forall_mem_append, List.forall_mem_cons]
    exact ⟨front, ih here, back⟩
  | trans _ _ first second => exact second (first distinct)

theorem rel_refl (t : Option Tree) : Option.Rel Reordered t t := by
  cases t with
  | none => exact .none
  | some t => exact .some (.refl t)

theorem rel_trans {a b c : Option Tree} (one : Option.Rel Reordered a b)
    (two : Option.Rel Reordered b c) : Option.Rel Reordered a c := by
  cases one with
  | none => exact two
  | some first =>
    cases two with
    | some second => exact .some (first.trans second)

/-- Where no name stands twice, the order of entries does not change what stands where. -/
theorem at? (reordered : Reordered t u) (distinct : t.Distinct) (p : List String) :
    Option.Rel Reordered (at? p t) (at? p u) := by
  induction reordered generalizing p with
  | refl => exact rel_refl _
  | order same =>
    cases p with
    | nil => exact .some (.order same)
    | cons k p =>
      rw [Tree.at?, Tree.at?, entries, entries, Entries.get?_perm (distinct_table.mp distinct).names same]
      exact rel_refl _
  | entry before after k below ih =>
    cases p with
    | nil => exact .some (.entry before after k below)
    | cons j p =>
      have values := (distinct_table.mp distinct).values
      simp only [Tree.at?, entries, Entries.get?_append, Entries.get?_cons]
      cases Entries.get? j before with
      | some t => exact rel_refl _
      | none =>
        split
        · exact ih (values (k, _) (by simp)) p
        · exact rel_refl _
  | trans first _ ih ih' => exact rel_trans (ih distinct p) (ih' (first.distinct distinct) p)

theorem isEmptyTable_eq (reordered : Reordered t u) : t.isEmptyTable = u.isEmptyTable := by
  induction reordered with
  | refl => rfl
  | order same =>
    rename_i es fs
    have empty : es = [] ↔ fs = [] := ⟨fun none => List.nil_perm.mp (none ▸ same), fun none =>
      List.perm_nil.mp (none ▸ same)⟩
    cases es <;> cases fs <;> simp_all [isEmptyTable]
  | entry before after k _ _ => cases before <;> rfl
  | trans _ _ first second => exact first.trans second

theorem stated {t u : Option Tree} (reordered : Option.Rel Reordered t u) :
    Option.Rel Reordered (stated t) (stated u) := by
  cases reordered with
  | none => exact .none
  | some reordered =>
    rw [Tree.stated, Tree.stated, Option.filter_some, Option.filter_some, reordered.isEmptyTable_eq]
    split
    · exact .some reordered
    · exact .none

end Reordered

end Tree

/-- A name without dots and brackets. -/
def IsPlain (name : String) : Prop := '.' ∉ name.toList ∧ '[' ∉ name.toList

instance (name : String) : Decidable (IsPlain name) := inferInstanceAs (Decidable (_ ∧ _))

theorem path_of_isPlain {name : String} (plain : IsPlain name) : path name = [.key name] := by
  have dots : Text.splitOn '.' name.toList = [name.toList] :=
    Text.splitOn_plain fun c hc same => plain.1 (same ▸ hc)
  have brackets : Text.splitOn '[' name.toList = [name.toList] :=
    Text.splitOn_plain fun c hc same => plain.2 (same ▸ hc)
  rw [path, dots, List.mapM_cons, steps?, brackets]
  dsimp only
  split
  · simp
  · rfl

theorem overlay_eq_putAll {source : List (String × Tree)} (plain : ∀ e ∈ source, IsPlain e.1)
    (root : Tree) : overlay root source = some (Tree.putAll root source) := by
  induction source generalizing root with
  | nil => rw [Tree.putAll]; rfl
  | cons e source ih =>
    obtain ⟨first, later⟩ := List.forall_mem_cons.mp plain
    rw [overlay_cons, path_of_isPlain first, Tree.putAt, Option.bind_some, ih later, Tree.putAll]

theorem distinct_ofDocument {text : String} {document : List (String × Tree)}
    (read : ofDocument text = some document) : (Tree.table document).Distinct := by
  obtain ⟨table, parsed, rfl⟩ := Option.map_eq_some_iff.mp read
  have whole := Tree.distinct_ofToml (Toml.Value.distinct_table.mpr (Toml.distinct_of_read? parsed))
  rwa [ofToml] at whole

/-- A table of such names, laid over nothing, is the tree. -/
theorem alone_of_distinct {file : List (String × Tree)} (distinct : (Tree.table file).Distinct)
    (plain : ∀ e ∈ file, IsPlain e.1) : alone file = some (.table file) := by
  obtain ⟨names, values⟩ := Tree.distinct_table.mp distinct
  rw [alone, overlay_eq_putAll plain,
    Tree.putAll_new (fun e he us new => Tree.put_new (values e he) new) (by simpa), List.nil_append]

end TraceTally.Settings
