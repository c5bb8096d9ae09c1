import TraceTally.Event
import TraceTally.Failure
import TraceTally.Text.Blank
import TraceTally.Text.Bytes
import TraceTally.Text.Digits

/-!
# Filters as conditions on columns

A filter becomes a conjunction of column equalities, in the order trace, origin, event. A set field
must not be blank, must not pass 1024 bytes and must hold no control character; the first field that
breaks a rule is the one reported. A predicate can be evaluated on a row, or written as the text of
a condition with one mark per bound value.
-/

namespace TraceTally

inductive Column where
  | traceId
  | origin
  | event
  deriving DecidableEq, Repr

def Column.name : Column → String
  | .traceId => "trace_id"
  | .origin => "origin"
  | .event => "event"

structure Predicate where
  clauses : List (Column × String)
  deriving DecidableEq, Repr

/-- The three filterable columns of a row. -/
structure Row where
  traceId : String
  origin : String
  event : String
  deriving DecidableEq, Repr

def Row.get (r : Row) : Column → String
  | .traceId => r.traceId
  | .origin => r.origin
  | .event => r.event

namespace Predicate

def isEmpty (p : Predicate) : Bool := p.clauses.isEmpty

def holds (p : Predicate) (r : Row) : Bool := p.clauses.all fun (c, value) => r.get c == value

/-- The condition's text; without clauses there is none. -/
def condition (p : Predicate) : String :=
  if p.clauses.isEmpty then ""
  else "WHERE " ++ " AND ".intercalate (p.clauses.map fun (c, _) => c.name ++ " = ?")

/-- The values of the marks, in order. -/
def binds (p : Predicate) : List String := p.clauses.map Prod.snd

end Predicate

/-- What can be wrong with the value of a filter field. -/
inductive ValueFault where
  | blank
  | tooLong
  | controlCharacter
  deriving DecidableEq, Repr

namespace Filter

def maxValueBytes : Nat := 1024

def valueFault? (value : String) : Option ValueFault :=
  let cs := value.toList
  if cs.all Text.isBlank then some .blank
  else if maxValueBytes < Text.byteLength cs then some .tooLong
  else if cs.any Text.isControl then some .controlCharacter
  else none

def faultMessage (c : Column) : ValueFault → String
  | .blank => c.name ++ " must not be blank"
  | .tooLong => c.name ++ " exceeds " ++ String.ofList (Text.digits maxValueBytes) ++ " bytes"
  | .controlCharacter => c.name ++ " contains control characters"

/-- The set fields with their columns. -/
def setFields (f : Filter) : List (Column × String) :=
  [(.traceId, f.traceId), (.origin, f.origin), (.event, f.eventName)].filterMap
    fun (c, value) => value.map fun v => (c, v)

/-- The first set field whose value breaks a rule. -/
def firstFault? (f : Filter) : Option (Column × ValueFault) :=
  f.setFields.findSome? fun (c, v) => (valueFault? v).map fun fault => (c, fault)

def toPredicate (f : Filter) : Except Failure Predicate :=
  match f.firstFault? with
  | some (c, fault) => .error (.invalidFilter (faultMessage c fault))
  | none => .ok ⟨f.setFields⟩

end Filter

end TraceTally
