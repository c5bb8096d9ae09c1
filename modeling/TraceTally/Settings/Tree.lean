import TraceTally.Binary64.Reading
import TraceTally.Entries
import TraceTally.Settings.Basic
import TraceTally.Text.Blank
import TraceTally.Toml.Basic

/-!
# Settings as a tree

Before they are checked, settings are a tree whose leaves are single values. Trees are laid over each
other: what is put at a path replaces what was there, but tables are put entry by entry, so that an
entry which the upper tree does not have keeps its value. An empty table therefore changes nothing
where something was already. A path goes on by names in tables and by positions in lists.
-/

namespace TraceTally.Settings

inductive Tree where
  /-- A setting that is known to have no value. -/
  | unset
  | flag (b : Bool)
  | whole (n : Int)
  | real (x : Binary64)
  | text (s : String)
  | list (elements : List Tree)
  | table (entries : List (String × Tree))
  deriving Repr

/-- A step of a path: to the entry of a table, or to a position in a list. -/
inductive Step where
  | key (k : String)
  /-- A negative position counts from the end of the list. -/
  | index (i : Int)
  deriving DecidableEq, Repr

/-- The place in a list of that length; nothing for a position before its start. -/
def place? (i : Int) (length : Nat) : Option Nat :=
  if 0 ≤ i then some i.toNat
  else if i.natAbs ≤ length then some (length - i.natAbs) else none

namespace Tree

/-- The entries of a table; anything else has none. -/
def entries : Tree → List (String × Tree)
  | .table es => es
  | _ => []

def elements : Tree → List Tree
  | .list ts => ts
  | _ => []

open Entries (get? set)

mutual

/-- The entry `k` laid over what the tree has there. A tree that is no table becomes one. -/
def put (root : Tree) (k : String) : Tree → Tree
  | .table es =>
    .table (set k (putAll ((get? k root.entries).getD (.table [])) es) root.entries)
  | t => .table (set k t root.entries)

def putAll (root : Tree) : List (String × Tree) → Tree
  | [] => root
  | (k, t) :: rest => putAll (put root k t) rest

end

/-- A tree laid over what stands at the end of a path. What stands on the way becomes a table or a list,
as the path has it. A list is lengthened by elements without a value up to the position, for which
memory is taken to suffice. -/
def putAt (t : Tree) : List Step → Tree → Option Tree
  | [], _ => some t
  | [.key k], root => some (put root k t)
  | .key k :: path, root =>
    (putAt t path ((get? k root.entries).getD .unset)).map fun u => .table (set k u root.entries)
  | .index i :: path, root => do
    let n ← place? i root.elements.length
    let u ← putAt t path (root.elements.getD n .unset)
    some (.list ((root.elements.rightpad (n + 1) .unset).set n u))

end Tree

def isNameChar (c : Char) : Bool := c.isAlphanum || c = ' ' || c = '_' || c = '-'

def isSpace (c : Char) : Bool := c = ' ' || c = '\t'

/-- A position, up to its closing bracket. It may stand between spaces. -/
def index? (cs : List Char) : Option Step :=
  match Text.splitAt? ']' cs with
  | some (inner, []) =>
    let inner := ((inner.dropWhile isSpace).reverse.dropWhile isSpace).reverse
    if inner.head? = some '+' then none
    else (Text.readInt Text.maxInt64 inner).toOption.map .index
  | _ => none

/-- A name and any number of positions in brackets. -/
def steps? (cs : List Char) : Option (List Step) :=
  match Text.splitOn '[' cs with
  | [] => none
  | k :: positions =>
    if !k.isEmpty && k.all isNameChar then
      (positions.mapM index?).map fun indices => .key (String.ofList k) :: indices
    else none

/-- The path that a name stands for, by its parts between dots; a name of any other form is a single
step. -/
def path (name : String) : List Step :=
  (((Text.splitOn '.' name.toList).mapM steps?).map List.flatten).getD [.key name]

/-- A source laid over what the sources before it gave. There is no outcome if a position lies before the
start of its list. -/
def overlay (root : Tree) (source : List (String × Tree)) : Option Tree :=
  source.foldlM (fun root (name, t) => t.putAt (path name) root) root

/-- What becomes of the dates of a document. -/
inductive DateRule where
  /-- They are their texts. -/
  | asText
  /-- They are tables without an entry that any setting has. -/
  | asTable
  deriving DecidableEq, Repr

mutual

def ofToml (rule : DateRule) : Toml.Value → Tree
  | .text s => .text s
  | .whole n => .whole n
  | .real x => .real x
  | .flag b => .flag b
  | .dateTime s =>
    match rule with
    | .asText => .text s
    | .asTable => .table [("", .text s)]
  | .list vs => .list (listOfToml rule vs)
  | .table es => .table (tableOfToml rule es)

def listOfToml (rule : DateRule) : List Toml.Value → List Tree
  | [] => []
  | v :: rest => ofToml rule v :: listOfToml rule rest

def tableOfToml (rule : DateRule) : List (String × Toml.Value) → List (String × Tree)
  | [] => []
  | (k, v) :: rest => (k, ofToml rule v) :: tableOfToml rule rest

end

theorem tableOfToml_eq_map (rule : DateRule) (es : List (String × Toml.Value)) :
    tableOfToml rule es = es.map fun (k, v) => (k, ofToml rule v) := by
  induction es with
  | nil => rw [tableOfToml, List.map_nil]
  | cons e es ih => rw [tableOfToml, ih, List.map_cons]

/-- What the names of variables begin with. -/
def variableStart : List Char := "spanstat_".toList

/-- Lower case, as far as names of settings go: the letters of ASCII, and the sign for kelvin, whose
lower case is one of them. -/
def lower (c : Char) : Char := if c = '\u212A' then 'k' else c.toLower

/-- Two underscores stand for a dot. -/
def dotted : List Char → List Char
  | '_' :: '_' :: rest => '.' :: dotted rest
  | c :: rest => c :: dotted rest
  | [] => []

/-- The name of the setting that a variable is for. -/
def settingOf? (name : String) : Option String :=
  (Text.dropStart? variableStart (name.toList.map lower)).map fun rest =>
    String.ofList (dotted rest)

/-- A variable's value is a flag, else a whole number of 64 bits, else a double, else a text. -/
def variableValue (s : String) : Tree :=
  match String.ofList (s.toList.map Char.toLower) with
  | "true" => .flag true
  | "false" => .flag false
  | _ =>
    match Text.readInt Text.maxInt64 s.toList with
    | .ok n => .whole n
    | .error _ =>
      match Binary64.read? s.toList with
      | some x => .real x
      | none => .text s

def ofEnvironment (env : List (String × String)) : List (String × Tree) :=
  env.filterMap fun (name, value) =>
    (settingOf? name).map fun setting => (setting, variableValue value)

end TraceTally.Settings
