import TraceTally.Json.Text
import TraceTally.Text.Blank

/-!
# JSON values and their text

A value is written on one line without blanks, or with one member or element per line, indented by two
blanks per level. A number that is not finite is written as `null`.
-/

namespace TraceTally

inductive Json where
  | null
  | flag (b : Bool)
  | number (x : Binary64)
  | string (s : String)
  | list (elements : List Json)
  | object (members : List (String × Json))
  deriving Repr

namespace Json

def writeNumber (x : Binary64) : List Char :=
  if x.isFinite then Binary64.Layout.json.write x else "null".toList

mutual

def compact : Json → List Char
  | .null => "null".toList
  | .flag b => if b then "true".toList else "false".toList
  | .number x => writeNumber x
  | .string s => writeString s
  | .list elements => '[' :: Text.join [','] (compactElements elements) ++ [']']
  | .object members => '{' :: Text.join [','] (compactMembers members) ++ ['}']

def compactElements : List Json → List (List Char)
  | [] => []
  | j :: rest => compact j :: compactElements rest

def compactMembers : List (String × Json) → List (List Char)
  | [] => []
  | (name, j) :: rest => (writeString name ++ ':' :: compact j) :: compactMembers rest

end

/-- Parts between brackets, each on a line of its own that is indented by `depth` and one more. -/
def bracket (left right : Char) (depth : Nat) (parts : List (List Char)) : List Char :=
  let line (d : Nat) : List Char := '\n' :: List.replicate (2 * d) ' '
  if parts.isEmpty then [left, right]
  else left :: Text.join [','] (parts.map fun p => line (depth + 1) ++ p) ++ line depth ++ [right]

mutual

def indented (depth : Nat) : Json → List Char
  | .list elements => bracket '[' ']' depth (indentedElements (depth + 1) elements)
  | .object members => bracket '{' '}' depth (indentedMembers (depth + 1) members)
  | .null => compact .null
  | .flag b => compact (.flag b)
  | .number x => compact (.number x)
  | .string s => compact (.string s)

def indentedElements (depth : Nat) : List Json → List (List Char)
  | [] => []
  | j :: rest => indented depth j :: indentedElements depth rest

def indentedMembers (depth : Nat) : List (String × Json) → List (List Char)
  | [] => []
  | (name, j) :: rest =>
    (writeString name ++ ':' :: ' ' :: indented depth j) :: indentedMembers depth rest

end

def pretty (j : Json) : List Char := indented 0 j

end Json

end TraceTally
