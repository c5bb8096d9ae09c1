import TraceTally.Json.Error

/-!
# A place in a JSON text

A cursor is what is left of the text and where that begins. Errors lie either at the cursor or just
past the byte that it points to.
-/

namespace TraceTally.Json

structure Cursor where
  rest : List Char
  position : Position := {}
  deriving DecidableEq, Repr

abbrev Reader (α : Type) := Cursor → Except Error (α × Cursor)

/-- The place `width` bytes further on the line, or at the start of the next. -/
def Position.after (p : Position) (c : Char) (width : Nat) : Position :=
  if c = '\n' then ⟨p.breaks + 1, 0⟩ else ⟨p.breaks, p.column + width⟩

namespace Cursor

/-- The cursor behind the next character. -/
def advance (c : Cursor) : Cursor :=
  match c.rest with
  | [] => c
  | d :: rest => ⟨rest, c.position.after d (Text.utf8Char d).length⟩

def isBlank (d : Char) : Bool := d = ' ' || d = '\n' || d = '\t' || d = '\r'

def skipFrom (p : Position) : List Char → Cursor
  | [] => ⟨[], p⟩
  | d :: rest => if isBlank d then skipFrom (p.after d 1) rest else ⟨d :: rest, p⟩

def skipBlanks (c : Cursor) : Cursor := skipFrom c.position c.rest

/-- One byte further, if there is one. -/
def next (c : Cursor) : Position :=
  match c.rest with
  | [] => c.position
  | d :: _ => c.position.after d 1

def failHere {α : Type} (c : Cursor) (cause : Cause) : Except Error α := .error ⟨cause, c.position⟩

def failNext {α : Type} (c : Cursor) (cause : Cause) : Except Error α := .error ⟨cause, c.next⟩

theorem advance_length {c : Cursor} {d : Char} {rest : List Char} (h : c.rest = d :: rest) :
    c.advance.rest.length < c.rest.length := by
  obtain ⟨r, p⟩ := c
  subst h
  simp [advance]

end Cursor

/-- The rest of one of the words `null`, `true`, `false`. -/
def ident : List Char → Cursor → Except Error Cursor
  | [], c => .ok c
  | d :: word, c =>
    match c.rest with
    | [] => c.failHere (.unfinished .value)
    | e :: _ => if e = d then ident word c.advance else c.failNext .expectedIdent

end TraceTally.Json
