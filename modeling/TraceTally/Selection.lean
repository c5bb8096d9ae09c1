import TraceTally.Event
import TraceTally.Text.Blank

/-!
# What a caller selects

Callers name trace, origin and event to narrow a query or a removal. A name that is not given
matches anything; to the collector an empty name is as good as none, but in the text that repeats a
selection to its caller it is shown.
-/

namespace TraceTally

/-- Trace, origin and event of a request, as sent. -/
structure Selection where
  traceId : Option String := none
  origin : Option String := none
  event : Option String := none
  deriving DecidableEq, Repr

namespace Selection

def isEmpty (s : Selection) : Bool := s.traceId.isNone && s.origin.isNone && s.event.isNone

def nonEmpty (s : Option String) : Option String := s.filter fun t => !t.isEmpty

def filter (s : Selection) : Filter := ⟨nonEmpty s.traceId, nonEmpty s.origin, nonEmpty s.event⟩

/-- The names that are given, each with its label. -/
def parts (s : Selection) : List (List Char) :=
  [("trace_id", s.traceId), ("origin", s.origin), ("event", s.event)].filterMap
    fun (label, value) => value.map fun v => label.toList ++ '=' :: v.toList

def describe (s : Selection) : String :=
  if s.parts.isEmpty then "all events" else String.ofList (Text.join [' '] s.parts)

end Selection

end TraceTally
