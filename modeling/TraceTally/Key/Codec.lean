import TraceTally.Key
import TraceTally.Text.Blank
import TraceTally.Text.Digits

/-!
# Keys as flat text

The four fields are joined by colons; a colon or a backslash inside a field is written with a
backslash before it. Reading goes from left to right and stops at the first bad escape; only a text
whose escapes are all good is then judged by its number of fields.
-/

namespace TraceTally.Key

def separator : Char := ':'

def escape : Char := '\\'

/-- The characters that are written with an escape inside a field. -/
def isSpecial (c : Char) : Bool := c = separator || c = escape

def encodeField (field : List Char) : List Char :=
  field.flatMap fun c => if isSpecial c then [escape, c] else [c]

def encodeFields (fields : List (List Char)) : List Char :=
  Text.join [separator] (fields.map encodeField)

inductive DecodeError where
  | fieldCount (found : Nat)
  | danglingEscape
  | unknownEscape (c : Char)
  deriving DecidableEq, Repr

def DecodeError.message : DecodeError → String
  | .fieldCount found => "expected 4 fields, found " ++ String.ofList (Text.digits found)
  | .danglingEscape => "dangling escape at end of key"
  | .unknownEscape c => "unknown escape sequence '\\" ++ String.ofList [c, '\'']

/-- Adds a character to the field being read, the first of the list. -/
def consField (c : Char) : List (List Char) → List (List Char)
  | [] => [[c]]
  | field :: fields => (c :: field) :: fields

/-- The unescaped fields, however many there are. -/
def decodeFields : List Char → Except DecodeError (List (List Char))
  | [] => .ok [[]]
  | c :: rest =>
    if c = escape then
      match rest with
      | [] => .error .danglingEscape
      | d :: rest => if isSpecial d then (decodeFields rest).map (consField d) else .error (.unknownEscape d)
    else if c = separator then (decodeFields rest).map ([] :: ·)
    else (decodeFields rest).map (consField c)

def encode (k : Key) : String := String.ofList (encodeFields (k.fields.map String.toList))

def ofFields? : List (List Char) → Except DecodeError Key
  | [origin, traceId, name, unit] =>
    .ok ⟨.ofList origin, .ofList traceId, .ofList name, .ofList unit⟩
  | fields => .error (.fieldCount fields.length)

def decode (s : String) : Except DecodeError Key := (decodeFields s.toList).bind ofFields?

example : encode ⟨"a:b", "", "c\\", "u"⟩ = "a\\:b::c\\\\:u" := by decide +kernel

end TraceTally.Key
