/-!
# What callers submit and ask for

An event is one named measurement. An entry is a group of events that share an origin and a trace.
A filter fixes some of trace, origin and event name; what it leaves unset matches anything. The
type of values is a parameter: all that the collector needs of it is addition.
-/

namespace TraceTally

structure Event (V : Type) where
  name : String
  value : V
  unit : String
  deriving DecidableEq, Repr

structure Entry (V : Type) where
  origin : String
  traceId : String
  events : List (Event V)
  deriving DecidableEq, Repr

structure Filter where
  traceId : Option String := none
  origin : Option String := none
  eventName : Option String := none
  deriving DecidableEq, Repr

def Filter.isEmpty (f : Filter) : Bool :=
  f.traceId.isNone && f.origin.isNone && f.eventName.isNone

end TraceTally
