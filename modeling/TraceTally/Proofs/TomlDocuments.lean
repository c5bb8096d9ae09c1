import TraceTally.Proofs.TomlLines
import TraceTally.Toml.Document

/-!
# Written documents, read back

Where no name is used twice in one table, the statements of a layout fill the tables that the layout
describes: the entries at the top, and then the sections in their order. A layout that can be written is
therefore read back from its text.
-/

namespace TraceTally.Toml

open Entries (get? get?_append get?_cons set_new set_append_new)

def tableOf (es : List (String × Leaf)) : Table := es.map fun (k, leaf) => (k, leaf.value)

def Layout.table (l : Layout) : Table :=
  tableOf l.top ++ l.sections.map fun (name, es) => (name, .table (tableOf es))

/-- No name twice at the top, sections included, nor within a section. -/
structure Layout.Distinct (l : Layout) : Prop where
  top : (l.top.map Prod.fst ++ l.sections.map Prod.fst).Nodup
  sections : ∀ e ∈ l.sections, (e.2.map Prod.fst).Nodup

def nodesOf (es : List (String × Leaf)) : Nodes := es.map fun (k, leaf) => (k, .value leaf.value)

theorem assign_new {k : String} {ns : Nodes} (new : get? k ns = none) (v : Value) :
    Nodes.assign [k] v ns = some (ns ++ [(k, .value v)]) := by
  simp [Nodes.assign, Nodes.splitLast, Nodes.modify, new, set_new new]

/-- The document has its last section open, with the given entries. -/
def opened (root : Nodes) (name : String) (sub : Nodes) : Document :=
  ⟨root ++ [(name, .table .header sub)], [name]⟩

theorem step_top {root : Nodes} {k : String} (new : get? k root = none) (leaf : Leaf) :
    Document.step ⟨root, []⟩ (assignment (k, leaf)) =
      some ⟨root ++ [(k, .value leaf.value)], []⟩ := by
  simp [Document.step, assignment, Nodes.modify, assign_new new]

theorem step_header {root : Nodes} {name : String} (new : get? name root = none)
    (current : List String) :
    Document.step ⟨root, current⟩ (.header [name]) = some (opened root name []) := by
  simp [Document.step, Nodes.splitLast, Nodes.modify, Nodes.openTable, new, set_new new, opened]

theorem step_section {root sub : Nodes} {name k : String} (fresh : get? name root = none)
    (new : get? k sub = none) (leaf : Leaf) :
    Document.step (opened root name sub) (assignment (k, leaf)) =
      some (opened root name (sub ++ [(k, .value leaf.value)])) := by
  have here : get? name (root ++ [(name, .table .header sub)]) = some (.table .header sub) := by
    simp [get?_append, fresh, get?_cons]
  simp [Document.step, assignment, opened, Nodes.modify, here, assign_new new, set_append_new fresh,
    Entries.set]

/-- Assignments put their entries behind the others, in whatever table they write to. -/
theorem foldlM_assignments {doc : Nodes → Document} {ns : Nodes} {es : List (String × Leaf)}
    (step : ∀ {ns k leaf}, get? k ns = none →
      Document.step (doc ns) (assignment (k, leaf)) = some (doc (ns ++ [(k, .value leaf.value)])))
    (distinct : (ns.map Prod.fst ++ es.map Prod.fst).Nodup) :
    (es.map assignment).foldlM Document.step (doc ns) = some (doc (ns ++ nodesOf es)) := by
  induction es generalizing ns with
  | nil => simp [nodesOf]
  | cons e es ih =>
    obtain ⟨k, leaf⟩ := e
    rw [List.map_cons, List.append_cons] at distinct
    have new : k ∉ ns.map Prod.fst := by
      have front := (List.nodup_append.mp distinct).1
      exact fun mem => (List.nodup_append.mp front).2.2 k mem k List.mem_cons_self rfl
    have one := @step ns k leaf (Entries.get?_eq_none_of_not_mem new)
    have later := @ih (ns ++ [(k, .value leaf.value)]) (by simpa using distinct)
    rw [List.map_cons, List.foldlM_cons, one, Option.bind_eq_bind, Option.bind_some, later,
      List.append_assoc]
    rfl

theorem foldlM_section {root : Nodes} {name : String} (fresh : get? name root = none)
    {es : List (String × Leaf)} (distinct : (es.map Prod.fst).Nodup) (current : List String) :
    (sectionStatements (name, es)).foldlM Document.step ⟨root, current⟩ =
      some (opened root name (nodesOf es)) := by
  have below := @foldlM_assignments (opened root name) [] es
    (fun new => step_section fresh new _) distinct
  rw [sectionStatements, List.foldlM_cons, step_header fresh, Option.bind_eq_bind,
    Option.bind_some, below, List.nil_append]

def sectionNode : String × List (String × Leaf) → String × Node
  | (name, es) => (name, .table .header (nodesOf es))

theorem foldlM_sections {sections : List (String × List (String × Leaf))} {root : Nodes}
    (distinct : (root.map Prod.fst ++ sections.map Prod.fst).Nodup)
    (within : ∀ e ∈ sections, (e.2.map Prod.fst).Nodup) (current : List String) :
    ∃ last, (sections.flatMap sectionStatements).foldlM Document.step ⟨root, current⟩ =
      some ⟨root ++ sections.map sectionNode, last⟩ := by
  induction sections generalizing root current with
  | nil => exact ⟨current, by simp⟩
  | cons e sections ih =>
    obtain ⟨name, es⟩ := e
    rw [List.map_cons, List.append_cons] at distinct
    have fresh : name ∉ root.map Prod.fst := by
      have front := (List.nodup_append.mp distinct).1
      exact fun mem => (List.nodup_append.mp front).2.2 name mem name List.mem_cons_self rfl
    have one := foldlM_section (Entries.get?_eq_none_of_not_mem fresh)
      (within _ List.mem_cons_self) current
    obtain ⟨last, later⟩ := @ih (root ++ [sectionNode (name, es)])
      (by simpa [sectionNode] using distinct) (fun e he => within e (List.mem_cons_of_mem _ he))
      [name]
    rw [List.append_assoc, List.singleton_append] at later
    refine ⟨last, ?_⟩
    rw [List.flatMap_cons, List.foldlM_append, one, Option.bind_eq_bind, Option.bind_some]
    exact later

theorem entriesToValue_append (ns ms : Nodes) :
    entriesToValue (ns ++ ms) = entriesToValue ns ++ entriesToValue ms := by
  induction ns with
  | nil => rfl
  | cons n ns ih => rw [List.cons_append, entriesToValue, ih, entriesToValue, List.cons_append]

theorem entriesToValue_nodesOf (es : List (String × Leaf)) :
    entriesToValue (nodesOf es) = tableOf es := by
  induction es with
  | nil => rfl
  | cons e es ih =>
    rw [nodesOf, List.map_cons, ← nodesOf, entriesToValue, ih, Node.toValue]
    rfl

theorem entriesToValue_sections (sections : List (String × List (String × Leaf))) :
    entriesToValue (sections.map sectionNode) =
      sections.map fun (name, es) => (name, .table (tableOf es)) := by
  induction sections with
  | nil => rfl
  | cons e sections ih =>
    rw [List.map_cons, sectionNode, entriesToValue, ih, Node.toValue, entriesToValue_nodesOf]
    rfl

namespace Layout

variable {l : Layout}

theorem Distinct.ofStatements?_eq (distinct : l.Distinct) :
    ofStatements? l.statements = some l.table := by
  have names : (nodesOf l.top).map Prod.fst = l.top.map Prod.fst := by
    simp [nodesOf, Function.comp_def]
  have top := @foldlM_assignments (⟨·, []⟩) [] l.top (fun new => step_top new _)
    (List.nodup_append.mp distinct.top).1
  obtain ⟨last, sections⟩ := foldlM_sections (names ▸ distinct.top) distinct.sections []
  rw [List.nil_append] at top
  rw [ofStatements?, statements, List.foldlM_append, top, Option.bind_eq_bind, Option.bind_some,
    sections, Option.map_some, entriesToValue_append, entriesToValue_nodesOf,
    entriesToValue_sections, table]

/-- A layout that can be written is read back from its text. -/
theorem read?_write? (plain : l.IsBare) (distinct : l.Distinct) {cs : List Char}
    (written : l.write? = some cs) : read? cs = some l.table := by
  rw [read?, plain.statements?_eq braces written, Option.bind_some, distinct.ofStatements?_eq]

end Layout

end TraceTally.Toml
