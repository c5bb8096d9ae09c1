import TraceTally.Json.Skip

/-!
# Reading records

A record is read from an object, whose members may stand in any order, or from a list of its fields
in their order. In an object members that the record does not know are passed over, none that it knows
may come twice, and one that is not optional may not be missing. A list may end early where only
optional fields are left; one that is too long is an error behind its last field.
-/

namespace TraceTally.Json

/-- The word `null`, `true` or `false`, whose first letter stands at `c`. -/
def word (rest : String) (c : Cursor) (found : Found) : Except Error (Found × Cursor) :=
  (ident rest.toList c.advance).map fun c => (found, c)

/-- What stands at the cursor where something else was asked for. It is read as far as its kind and
value need it. -/
def found (c : Cursor) : Except Error (Found × Cursor) :=
  match c.rest with
  | [] => c.failNext .expectedValue
  | 'n' :: _ => word "ull" c .null
  | 't' :: _ => word "rue" c (.flag true)
  | 'f' :: _ => word "alse" c (.flag false)
  | '-' :: _ => (readNumber true c.advance).map fun (n, c) => (n.found, c)
  | '"' :: _ => (stringBody .keep c.advance).map fun (s, c) => (.text (String.ofList s), c)
  | '[' :: _ => .ok (.list, c)
  | '{' :: _ => .ok (.object, c)
  | d :: _ =>
    if isDigit d then (readNumber false c).map fun (n, c) => (n.found, c) else c.failNext .expectedValue

def unexpected {α : Type} (expected : String) (c : Cursor) : Except Error α := do
  let (f, c) ← found c
  c.failHere (.unexpected f expected)

def readText : Reader String := fun c =>
  let c := c.skipBlanks
  match c.rest with
  | [] => c.failNext (.unfinished .value)
  | '"' :: _ => (stringBody .keep c.advance).map fun (s, c) => (String.ofList s, c)
  | _ :: _ => unexpected "a string" c

def readDouble : Reader Binary64 := fun c =>
  let c := c.skipBlanks
  match c.rest with
  | [] => c.failNext (.unfinished .value)
  | '-' :: _ => (readNumber true c.advance).map fun (n, c) => (n.toBinary64, c)
  | d :: _ =>
    if isDigit d then (readNumber false c).map fun (n, c) => (n.toBinary64, c) else unexpected "f64" c

/-- `null` for nothing. -/
def readOptional {α : Type} (r : Reader α) : Reader (Option α) := fun c =>
  let c := c.skipBlanks
  match c.rest with
  | 'n' :: _ => (ident "ull".toList c.advance).map fun c => (none, c)
  | _ => (r c).map fun (a, c) => (some a, c)

/-- The next element's place, unless the list ends here. -/
def element? (first : Bool) (c : Cursor) : Except Error (Option Cursor × Cursor) :=
  let c := c.skipBlanks
  match c.rest with
  | [] => c.failNext (.unfinished .list)
  | ']' :: _ => .ok (none, c)
  | d :: _ =>
    if first then .ok (some c, c)
    else if d = ',' then
      let c := c.advance.skipBlanks
      match c.rest with
      | [] => c.failNext (.unfinished .value)
      | ']' :: _ => c.failNext .trailingComma
      | _ :: _ => .ok (some c, c)
    else c.failNext .expectedListEnd

def closeList (c : Cursor) : Except Error Cursor :=
  let c := c.skipBlanks
  match c.rest with
  | [] => c.failNext (.unfinished .list)
  | ']' :: _ => .ok c.advance
  | ',' :: _ =>
    let c := c.advance.skipBlanks
    match c.rest with
    | ']' :: _ => c.failNext .trailingComma
    | _ => c.failNext .trailingCharacters
  | _ :: _ => c.failNext .trailingCharacters

/-- One step per element, and each takes a character. -/
def elements {α : Type} (item : Reader α) : Nat → Bool → Reader (List α)
  | 0, _, c => c.failHere (.unfinished .list)
  | steps + 1, first, c => do
    match ← element? first c with
    | (none, c) => .ok ([], c)
    | (some c, _) =>
      let (a, c) ← item c
      let (as, c) ← elements item steps false c
      .ok (a :: as, c)

def readList {α : Type} (item : Reader α) : Reader (List α) := fun c =>
  let c := c.skipBlanks
  match c.rest with
  | [] => c.failNext (.unfinished .value)
  | '[' :: _ => do
    let c := c.advance
    let (as, c) ← elements item (c.rest.length + 1) true c
    let c ← closeList c
    .ok (as, c)
  | _ :: _ => unexpected "a sequence" c

structure Slot (α : Type) where
  name : String
  optional : Bool := false
  /-- Reads the field's value into the record. -/
  read : α → Reader α

structure Schema (α : Type) where
  label : String
  blank : α
  slots : List (Slot α)

namespace Schema

variable {α : Type}

def slot? (s : Schema α) (name : String) : Option (Slot α) := s.slots.find? fun t => t.name = name

/-- The first field that is neither optional nor among those seen. -/
def missing? (s : Schema α) (seen : List String) : Option String :=
  (s.slots.find? fun t => !t.optional && !seen.contains t.name).map Slot.name

def sizeText (s : Schema α) : String :=
  s.label ++ " with " ++ String.ofList (Text.digits s.slots.length) ++ " elements"

/-- The next member's name, unless the object ends here. -/
def name? (first : Bool) (c : Cursor) : Except Error (Option String × Cursor) := do
  let c := c.skipBlanks
  match c.rest with
  | [] => c.failNext (.unfinished .object)
  | '}' :: _ => .ok (none, c)
  | d :: _ =>
    let c ← if first then pure c
      else if d = ',' then
        let c := c.advance.skipBlanks
        match c.rest with
        | [] => c.failNext (.unfinished .value)
        | '}' :: _ => c.failNext .trailingComma
        | _ :: _ => pure c
      else c.failNext .expectedObjectEnd
    match c.rest with
    | '"' :: _ => (stringBody .keep c.advance).map fun (s, c) => (some (String.ofList s), c)
    | _ => c.failNext .keyMustBeString

def colon (c : Cursor) : Except Error Cursor :=
  let c := c.skipBlanks
  match c.rest with
  | [] => c.failNext (.unfinished .object)
  | ':' :: _ => .ok c.advance
  | _ :: _ => c.failNext .expectedColon

/-- Where an object that lacks a field, or has one twice, is left: behind its end, if that follows. -/
def leave (c : Cursor) : Cursor :=
  let c := c.skipBlanks
  match c.rest with
  | '}' :: _ => c.advance
  | _ => c

/-- The members after those `seen`. One step per member, and each takes a character. -/
def members (s : Schema α) : Nat → Bool → List String → α → Reader α
  | 0, _, _, _, c => c.failHere (.unfinished .object)
  | steps + 1, first, seen, a, c => do
    match ← name? first c with
    | (none, c) =>
      match s.missing? seen with
      | some name => (leave c).failHere (.missingField name)
      | none => .ok (a, c.advance)
    | (some name, c) =>
      match s.slot? name with
      | none =>
        let c ← colon c
        let c ← skipValue c
        members s steps false seen a c
      | some t =>
        if seen.contains name then (leave c).failHere (.duplicateField name)
        else
          let c ← colon c
          let (a, c) ← t.read a c
          members s steps false (name :: seen) a c

/-- The fields by their order; `done` of them stand before `slots`. -/
def positional (s : Schema α) (done : Nat) (first : Bool) : List (Slot α) → α → Reader α
  | [], a, c => (closeList c).map fun c => (a, c)
  | t :: slots, a, c => do
    match ← element? first c with
    | (some c, _) =>
      let (a, c) ← t.read a c
      positional s (done + 1) false slots a c
    | (none, c) =>
      if t.optional then positional s (done + 1) false slots a c
      else c.advance.failHere (.wrongLength done s.sizeText)

def read (s : Schema α) : Reader α := fun c =>
  let c := c.skipBlanks
  match c.rest with
  | [] => c.failNext (.unfinished .value)
  | '[' :: _ => s.positional 0 true s.slots s.blank c.advance
  | '{' :: _ =>
    let c := c.advance
    s.members (c.rest.length + 1) true [] s.blank c
  | _ :: _ => unexpected s.label c

end Schema

/-- A text that holds one value and, apart from blanks, nothing else. -/
def readAll {α : Type} (r : Reader α) (text : List Char) : Except Error α := do
  let (a, c) ← r ⟨text, {}⟩
  let c := c.skipBlanks
  match c.rest with
  | [] => .ok a
  | _ :: _ => c.failNext .trailingCharacters

end TraceTally.Json
