import TraceTally.Client.Run
import TraceTally.Collector.Ticker
import TraceTally.Server.Rpc
import TraceTally.Wire.Message

/-!
# The aggregator as its clients see it

A call carries its message over the wire, passes the check of the token, and is answered by the
collector, whose answer travels back in the same way.
-/

namespace TraceTally

/-- What arrives of a value that is sent as a message. -/
def Wire.Format.arrives {α : Type} (f : Wire.Format α) (a : α) : α :=
  (f.decode? (f.encode a)).getD f.empty

namespace Runtime

variable {σ : Type} [EventStore σ Binary64]

/-- A call that the token check lets through; what the check notes goes into the audit trail. -/
def guarded {α : Type} (expected : Option String) (header : Option Text.Bytes)
    (call : Runtime σ Binary64 → Except RpcStatus α × Runtime σ Binary64) (s : Runtime σ Binary64) :
    Except RpcStatus α × Runtime σ Binary64 :=
  let (verdict, notes) := Bearer.intercept expected header
  let s := s.setCollector (notes.foldl Collector.log s.collector)
  match verdict with
  | .error status => (.error status, s)
  | .ok () => call s

def service (expected : Option String) : Client.Service (Runtime σ Binary64) where
  insert header entries := guarded expected header fun s =>
    let (r, s) := s.insert (Wire.insertRequest.arrives entries)
    (Rpc.answer r, s)
  query header selection := guarded expected header fun s =>
    let (r, c) := Rpc.query s.timed.clock.today (Wire.selection.arrives selection) s.collector
    (r.map Wire.queryResponse.arrives, s.setCollector c)
  delete header selection := guarded expected header fun s =>
    let (r, c) := Rpc.delete s.timed.clock.today (Wire.selection.arrives selection) s.collector
    (r, s.setCollector c)

end Runtime

end TraceTally
