import TraceTally.Binary64.Reading
import TraceTally.Event
import TraceTally.Text.Blank

/-!
# Events on the command line

An event is given as `NAME=VALUE` or `NAME=VALUE:UNIT`. The name ends at the first equals sign and
may not be empty; the value ends at the first colon after it, and blanks around it do not count. The
unit is all that follows that colon, so it may hold colons and equals signs.
-/

namespace TraceTally

inductive EventArgumentError where
  | noEqualsSign (argument : String)
  | emptyName
  | invalidValue (value : String)
  deriving DecidableEq, Repr

def EventArgumentError.message : EventArgumentError → String
  | .noEqualsSign argument => "expected NAME=VALUE[:UNIT], got '" ++ argument ++ "'"
  | .emptyName => "event name is empty"
  | .invalidValue value => "invalid value '" ++ value ++ "'"

namespace EventArgument

/-- Value and unit of what follows the equals sign. -/
def splitUnit (cs : List Char) : List Char × List Char := (Text.splitAt? ':' cs).getD (cs, [])

def read (cs : List Char) : Except EventArgumentError (Event Binary64) :=
  match Text.splitAt? '=' cs with
  | none => .error (.noEqualsSign (String.ofList cs))
  | some (name, rest) =>
    if name.isEmpty then .error .emptyName
    else
      let (value, unit) := splitUnit rest
      match Binary64.read? (Text.trim value) with
      | some x => .ok ⟨String.ofList name, x, String.ofList unit⟩
      | none => .error (.invalidValue (String.ofList value))

end EventArgument

end TraceTally
