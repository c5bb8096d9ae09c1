import TraceTally.Event
import TraceTally.Text.Bytes

/-!
# Aggregation keys

Values are summed per origin, trace, event name and unit. Keys are ordered field by field, texts by
their UTF-8 bytes.
-/

namespace TraceTally

structure Key where
  origin : String
  traceId : String
  name : String
  unit : String
  deriving DecidableEq, Repr

namespace Key

def ofEvent {V : Type} (entry : Entry V) (event : Event V) : Key :=
  ⟨entry.origin, entry.traceId, event.name, event.unit⟩

def fields (k : Key) : List String := [k.origin, k.traceId, k.name, k.unit]

def compare (a b : Key) : Ordering :=
  (Text.compareUtf8 a.origin b.origin).then <|
  (Text.compareUtf8 a.traceId b.traceId).then <|
  (Text.compareUtf8 a.name b.name).then <|
  Text.compareUtf8 a.unit b.unit

end Key

end TraceTally
