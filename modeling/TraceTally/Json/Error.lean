import TraceTally.Binary64.Layout
import TraceTally.Text.Quoted

/-!
# What is wrong with a JSON text

An error has a cause and a place. A text can end too soon, break the grammar, or hold a value that is
not what its reader asks for. Places count lines from one and columns in bytes.
-/

namespace TraceTally

/-- Shortest digits, positional from `10 ^ -5` to below `10 ^ 16`, a mark of a fraction always. -/
def Binary64.Layout.json : Binary64.Layout :=
  { positional := fun p => -5 ≤ p && p < 16, keepsFraction := true, exponentMark := "e+"
    notANumber := "null", infinite := "null" }

namespace Json

structure Position where
  /-- Line breaks before. -/
  breaks : Nat := 0
  /-- Bytes since the last line break. -/
  column : Nat := 0
  deriving DecidableEq, Repr

/-- What was still open when the text ended. -/
inductive Unfinished where
  | list
  | object
  | string
  | value
  deriving DecidableEq, Repr

/-- A value where another was asked for. -/
inductive Found where
  | null
  | flag (b : Bool)
  | whole (n : Int)
  | real (x : Binary64)
  | text (s : String)
  | list
  | object
  deriving DecidableEq, Repr

inductive Cause where
  | unfinished (what : Unfinished)
  | expectedColon
  | expectedListEnd
  | expectedObjectEnd
  | expectedIdent
  | expectedValue
  | invalidEscape
  | invalidNumber
  | numberOutOfRange
  | controlCharacter
  | keyMustBeString
  | loneSurrogate
  | unfinishedPair
  | trailingComma
  | trailingCharacters
  | unexpected (found : Found) (expected : String)
  | missingField (name : String)
  | duplicateField (name : String)
  | wrongLength (length : Nat) (expected : String)
  deriving DecidableEq, Repr

inductive Category where
  | eof
  | syntactic
  | data
  deriving DecidableEq, Repr

def Cause.category : Cause → Category
  | .unfinished _ => .eof
  | .unexpected _ _ | .missingField _ | .duplicateField _ | .wrongLength _ _ => .data
  | _ => .syntactic

structure Error where
  cause : Cause
  position : Position
  deriving DecidableEq, Repr

def Unfinished.name : Unfinished → String
  | .list => "a list"
  | .object => "an object"
  | .string => "a string"
  | .value => "a value"

def Found.describe : Found → String
  | .null => "null"
  | .flag true => "boolean `true`"
  | .flag false => "boolean `false`"
  | .whole n => "integer `" ++ String.ofList (Text.intDigits n) ++ "`"
  | .real x => "floating point `" ++ String.ofList (Binary64.Layout.json.write x) ++ "`"
  | .text s => "string " ++ String.ofList (Text.quote s.toList)
  | .list => "sequence"
  | .object => "map"

def Cause.message : Cause → String
  | .unfinished what => "EOF while parsing " ++ what.name
  | .expectedColon => "expected `:`"
  | .expectedListEnd => "expected `,` or `]`"
  | .expectedObjectEnd => "expected `,` or `\x7d`"
  | .expectedIdent => "expected ident"
  | .expectedValue => "expected value"
  | .invalidEscape => "invalid escape"
  | .invalidNumber => "invalid number"
  | .numberOutOfRange => "number out of range"
  | .controlCharacter => "control character (\\u0000-\\u001F) found while parsing a string"
  | .keyMustBeString => "key must be a string"
  | .loneSurrogate => "lone leading surrogate in hex escape"
  | .unfinishedPair => "unexpected end of hex escape"
  | .trailingComma => "trailing comma"
  | .trailingCharacters => "trailing characters"
  | .unexpected found expected => "invalid type: " ++ found.describe ++ ", expected " ++ expected
  | .missingField name => "missing field `" ++ name ++ "`"
  | .duplicateField name => "duplicate field `" ++ name ++ "`"
  | .wrongLength length expected =>
    "invalid length " ++ String.ofList (Text.digits length) ++ ", expected " ++ expected

def Error.message (e : Error) : String :=
  e.cause.message ++ " at line " ++ String.ofList (Text.digits (e.position.breaks + 1)) ++
    " column " ++ String.ofList (Text.digits e.position.column)

end Json

end TraceTally
