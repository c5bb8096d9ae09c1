import TraceTally.Collector.Query
import TraceTally.Collector.Removal
import TraceTally.Selection
import TraceTally.Server.Status

/-!
# Remote calls

What the collector does for a caller who selects by name. Failures are answered with a status.
-/

namespace TraceTally

namespace Rpc

/-- What a call is answered. -/
def answer {α : Type} (r : Except Failure α) : Except RpcStatus α := r.mapError Failure.toStatus

variable {σ V : Type} [EventStore σ V]

def query [Add V] (today : Int) (s : Selection) (c : Collector σ V) :
    Except RpcStatus (List (Event V)) × Collector σ V :=
  let (r, c) := c.query today s.filter
  (answer r, c)

def delete (today : Int) (s : Selection) (c : Collector σ V) :
    Except RpcStatus Nat × Collector σ V :=
  let (r, c) := c.delete today s.filter
  (answer r, c)

end Rpc

end TraceTally
