import TraceTally.Json.Number
import TraceTally.Json.Text

/-!
# Passing over a value

A value that its reader has no use for is passed over, at any depth, and only its grammar is checked.
-/

namespace TraceTally.Json

/-- A value without parts, by its first character, behind which `c` stands. -/
def skipAtom (d : Char) (c : Cursor) : Except Error Cursor :=
  match d with
  | 'n' => ident "ull".toList c.advance
  | 't' => ident "rue".toList c.advance
  | 'f' => ident "alse".toList c.advance
  | '-' => skipNumber c.advance
  | '"' => (stringBody .skip c.advance).map Prod.snd
  | d => if isDigit d then skipNumber c else c.failNext .expectedValue

/-- The name of a member, with the colon behind it. -/
def skipName (c : Cursor) : Except Error Cursor := do
  let c := c.skipBlanks
  match c.rest with
  | [] => c.failNext (.unfinished .object)
  | '"' :: _ =>
    let (_, c) ← stringBody .skip c.advance
    let c := c.skipBlanks
    match c.rest with
    | [] => c.failNext (.unfinished .object)
    | ':' :: _ => .ok c.advance
    | _ :: _ => c.failNext .expectedColon
  | _ :: _ => c.failNext .keyMustBeString

mutual

/-- Two steps per character are enough. -/
def skipSteps : Nat → Cursor → Except Error Cursor
  | 0, c => c.failHere (.unfinished .value)
  | steps + 1, c =>
    let c := c.skipBlanks
    match c.rest with
    | [] => c.failNext (.unfinished .value)
    | '[' :: _ =>
      let c := c.advance.skipBlanks
      match c.rest with
      | [] => c.failNext (.unfinished .list)
      | ']' :: _ => .ok c.advance
      | _ :: _ => skipElements steps c
    | '{' :: _ =>
      let c := c.advance.skipBlanks
      match c.rest with
      | [] => c.failNext (.unfinished .object)
      | '}' :: _ => .ok c.advance
      | _ :: _ => skipMembers steps c
    | d :: _ => skipAtom d c

def skipElements : Nat → Cursor → Except Error Cursor
  | 0, c => c.failHere (.unfinished .value)
  | steps + 1, c => do
    let c ← skipSteps steps c
    let c := c.skipBlanks
    match c.rest with
    | [] => c.failNext (.unfinished .list)
    | ']' :: _ => .ok c.advance
    | ',' :: _ => skipElements steps c.advance
    | _ :: _ => c.failNext .expectedListEnd

def skipMembers : Nat → Cursor → Except Error Cursor
  | 0, c => c.failHere (.unfinished .value)
  | steps + 1, c => do
    let c ← skipName c
    let c ← skipSteps steps c
    let c := c.skipBlanks
    match c.rest with
    | [] => c.failNext (.unfinished .object)
    | '}' :: _ => .ok c.advance
    | ',' :: _ => skipMembers steps c.advance
    | _ :: _ => c.failNext .expectedObjectEnd

end

def skipValue (c : Cursor) : Except Error Cursor := skipSteps (2 * c.rest.length + 2) c

end TraceTally.Json
