import TraceTally.Entries
import TraceTally.Toml.Statement

/-!
# TOML documents

Statements fill a tree of tables. A table is opened once at most; tables on the way to another come
into being by themselves, and may be opened later. Keys with dots extend only tables that keys with
dots have made. What is assigned is closed: nothing is added to a list or to a table in braces. Any
statement against these rules spoils the document.
-/

namespace TraceTally.Toml

/-- How a table came into being. -/
inductive Origin where
  | header
  /-- On the way of a header to another table. -/
  | passed
  /-- By a key with dots. -/
  | dotted
  deriving DecidableEq, Repr

inductive Node where
  | value (v : Value)
  | table (origin : Origin) (entries : List (String × Node))
  /-- Tables opened one by one under the same header, the last one first. -/
  | tables (elements : List (List (String × Node)))

abbrev Nodes := List (String × Node)

namespace Nodes

open Entries (get? set)

/-- Changes the entries of the table that a path leads to. Missing tables are made as `origin` says;
those that keys with dots pass must not have been opened by a header. -/
def modify (origin : Origin) (f : Origin → Nodes → Option Nodes) (at_ : Origin) :
    List String → Nodes → Option Nodes
  | [], ns => f at_ ns
  | k :: path, ns =>
    match get? k ns with
    | none => (modify origin f origin path []).map fun sub => set k (.table origin sub) ns
    | some (.value _) => none
    | some (.table o sub) =>
      if origin = .dotted && o = .header then none
      else (modify origin f o path sub).map fun sub => set k (.table o sub) ns
    | some (.tables []) => none
    | some (.tables (sub :: earlier)) =>
      (modify origin f .header path sub).map fun sub => set k (.tables (sub :: earlier)) ns

/-- Opens the table `k`, which may have come into being on the way to another. -/
def openTable (k : String) (ns : Nodes) : Option Nodes :=
  match get? k ns with
  | none => some (set k (.table .header []) ns)
  | some (.table .passed sub) => some (set k (.table .header sub) ns)
  | some _ => none

/-- Opens one more table of the list `k`. -/
def openElement (k : String) (ns : Nodes) : Option Nodes :=
  match get? k ns with
  | none => some (set k (.tables [[]]) ns)
  | some (.tables elements) => some (set k (.tables ([] :: elements)) ns)
  | some _ => none

/-- The last key of a path apart from those before. -/
def splitLast : List String → Option (List String × String)
  | [] => none
  | [k] => some ([], k)
  | k :: path => (splitLast path).map fun (front, last) => (k :: front, last)

/-- An assignment within a table, whose key must be new. -/
def assign (path : List String) (v : Value) (ns : Nodes) : Option Nodes :=
  (splitLast path).bind fun (front, k) =>
    let put (origin : Origin) (ns : Nodes) : Option Nodes :=
      if (origin == .dotted) == front.isEmpty || (get? k ns).isSome then none
      else some (set k (.value v) ns)
    modify .dotted put .header front ns

end Nodes

mutual

def Node.toValue : Node → Value
  | .value v => v
  | .table _ entries => .table (entriesToValue entries)
  | .tables elements => .list (tablesToValue elements).reverse

def entriesToValue : List (String × Node) → Table
  | [] => []
  | (k, n) :: rest => (k, n.toValue) :: entriesToValue rest

def tablesToValue : List (List (String × Node)) → List Value
  | [] => []
  | entries :: rest => .table (entriesToValue entries) :: tablesToValue rest

end

/-- The table in braces that assignments make. -/
def braces (pairs : List (List String × Value)) : Option Table :=
  (pairs.foldlM (fun ns (path, v) => Nodes.assign path v ns) []).map entriesToValue

/-- The document so far, and the table that is open. -/
structure Document where
  root : Nodes := []
  current : List String := []

def Document.step (d : Document) : Statement → Option Document
  | .header path =>
    (Nodes.splitLast path).bind fun (front, k) =>
      (Nodes.modify .passed (fun _ => Nodes.openTable k) .header front d.root).map
        fun root => ⟨root, path⟩
  | .listHeader path =>
    (Nodes.splitLast path).bind fun (front, k) =>
      (Nodes.modify .passed (fun _ => Nodes.openElement k) .header front d.root).map
        fun root => ⟨root, path⟩
  | .assign path v =>
    (Nodes.modify .passed (fun _ => Nodes.assign path v) .header d.current d.root).map
      fun root => { d with root }

def ofStatements? (ss : List Statement) : Option Table :=
  (ss.foldlM Document.step {}).map fun d => entriesToValue d.root

def read? (text : List Char) : Option Table := (statements? braces text).bind ofStatements?

end TraceTally.Toml
