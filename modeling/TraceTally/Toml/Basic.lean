import TraceTally.Binary64.Basic

/-!
# TOML values

A document is a table of values. The entries of a table keep the order in which they were written. A
date or a time is kept as its text.
-/

namespace TraceTally.Toml

inductive Value where
  | text (s : String)
  | whole (n : Int)
  | real (x : Binary64)
  | flag (b : Bool)
  | dateTime (s : String)
  | list (elements : List Value)
  | table (entries : List (String × Value))
  deriving Repr

abbrev Table := List (String × Value)

/-- A reader of the start of a text: what it read and what follows. -/
abbrev Scan (α : Type) := List Char → Option (α × List Char)

def isBlank (c : Char) : Bool := c = ' ' || c = '\t'

def skipBlanks (cs : List Char) : List Char := cs.dropWhile isBlank

/-- A line break is a line feed, also where a carriage return stands before it. -/
def foldBreaks : List Char → List Char
  | '\r' :: '\n' :: rest => '\n' :: foldBreaks rest
  | c :: rest => c :: foldBreaks rest
  | [] => []

/-- What may stand in strings and comments as it is: no control codes but the tab. -/
def isPlain (c : Char) : Bool := c = '\t' || (0x20 ≤ c.toNat && c.toNat ≠ 0x7F)

end TraceTally.Toml
