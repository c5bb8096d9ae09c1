import TraceTally.Toml.Scalar
import TraceTally.Toml.Text

/-!
# The lines of a TOML document

A document is a sequence of statements, each on a line of its own: a header that opens a table, a
header that opens one more table of a list, or an assignment. Keys are bare or quoted, and dots part
the keys of a path. Lists may spread over lines; tables in braces may not.
-/

namespace TraceTally.Toml

inductive Statement where
  | header (path : List String)
  | listHeader (path : List String)
  | assign (path : List String) (v : Value)
  deriving Repr

def isBareChar (c : Char) : Bool := c.isAlphanum || c = '_' || c = '-'

def key? : Scan String := fun cs =>
  match line? cs with
  | some found => some found
  | none =>
    let bare := cs.takeWhile isBareChar
    if bare.isEmpty then none else some (String.ofList bare, cs.drop bare.length)

/-- Keys parted by dots, blanks around them not counted. One step per key. -/
def pathSteps : Nat → Scan (List String)
  | 0, _ => none
  | steps + 1, cs => do
    let (k, rest) ← key? (skipBlanks cs)
    match skipBlanks rest with
    | '.' :: more => (pathSteps steps more).map fun (ks, rest) => (k :: ks, rest)
    | rest => some ([k], rest)

def path? : Scan (List String) := fun cs => pathSteps (cs.length + 1) cs

/-- The text behind a comment, if one stands here: up to the end of the line. -/
def skipComment (cs : List Char) : Option (List Char) :=
  match cs with
  | '#' :: rest =>
    match rest.dropWhile isPlain with
    | [] => some []
    | '\n' :: more => some ('\n' :: more)
    | _ => none
  | cs => some cs

/-- Blanks, line breaks and comments, as they may stand in lists. -/
def skipLines : Nat → List Char → Option (List Char)
  | 0, _ => none
  | steps + 1, cs => do
    match ← skipComment (skipBlanks cs) with
    | '\n' :: rest => skipLines steps rest
    | rest => some rest

def skipSpace (cs : List Char) : Option (List Char) := skipLines (cs.length + 1) cs

/-- What a table in braces is written as: paths with values. They make a table by the rules for
assignments, so that is left to `build`. -/
abbrev Builder := List (List String × Value) → Option Table

mutual

/-- Two steps per character are enough. -/
def valueSteps (build : Builder) : Nat → Scan Value
  | 0, _ => none
  | steps + 1, cs =>
    match cs with
    | '"' :: _ | '\'' :: _ => (text? cs).map fun (s, rest) => (.text s, rest)
    | '[' :: rest => (elementSteps build steps rest).map fun (vs, rest) => (.list vs, rest)
    | '{' :: rest =>
      match skipBlanks rest with
      | '}' :: rest => some (.table [], rest)
      | _ => do
        let (pairs, rest) ← memberSteps build steps rest
        let entries ← build pairs
        some (.table entries, rest)
    | _ => scalar? cs

/-- Elements up to the closing bracket; a comma may follow the last. -/
def elementSteps (build : Builder) : Nat → Scan (List Value)
  | 0, _ => none
  | steps + 1, cs => do
    match ← skipSpace cs with
    | ']' :: rest => some ([], rest)
    | rest =>
      let (v, rest) ← valueSteps build steps rest
      match ← skipSpace rest with
      | ']' :: rest => some ([v], rest)
      | ',' :: rest => (elementSteps build steps rest).map fun (vs, rest) => (v :: vs, rest)
      | _ => none

/-- Assignments up to the closing brace. -/
def memberSteps (build : Builder) : Nat → Scan (List (List String × Value))
  | 0, _ => none
  | steps + 1, cs => do
    let (path, rest) ← path? cs
    match rest with
    | '=' :: rest =>
      let (v, rest) ← valueSteps build steps (skipBlanks rest)
      match skipBlanks rest with
      | '}' :: rest => some ([(path, v)], rest)
      | ',' :: rest => (memberSteps build steps rest).map fun (ps, rest) => ((path, v) :: ps, rest)
      | _ => none
    | _ => none

end

def value? (build : Builder) : Scan Value := fun cs => valueSteps build (2 * cs.length + 2) cs

def assign? (build : Builder) : Scan Statement := fun cs => do
  let (path, rest) ← path? cs
  match rest with
  | '=' :: rest => (value? build (skipBlanks rest)).map fun (v, rest) => (.assign path v, rest)
  | _ => none

def statement? (build : Builder) : Scan Statement := fun cs =>
  match cs with
  | '[' :: '[' :: rest => do
    match ← path? rest with
    | (path, ']' :: ']' :: rest) => some (.listHeader path, rest)
    | _ => none
  | '[' :: rest => do
    match ← path? rest with
    | (path, ']' :: rest) => some (.header path, rest)
    | _ => none
  | _ => assign? build cs

/-- What may follow a statement on its line. -/
def endLine? (cs : List Char) : Option (List Char) := do
  match ← skipComment (skipBlanks cs) with
  | [] => some []
  | '\n' :: rest => some rest
  | _ => none

/-- One step per statement, and each takes a character. -/
def statementSteps (build : Builder) : Nat → List Char → Option (List Statement)
  | 0, _ => none
  | steps + 1, cs => do
    match ← skipSpace cs with
    | [] => some []
    | rest =>
      let (s, rest) ← statement? build rest
      let rest ← endLine? rest
      (statementSteps build steps rest).map (s :: ·)

/-- A byte order mark at the start is no part of the document. -/
def dropMark : List Char → List Char
  | '\uFEFF' :: rest => rest
  | cs => cs

def statements? (build : Builder) (text : List Char) : Option (List Statement) :=
  let cs := foldBreaks (dropMark text)
  statementSteps build (cs.length + 1) cs

end TraceTally.Toml
