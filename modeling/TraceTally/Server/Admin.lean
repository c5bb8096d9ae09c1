import TraceTally.Collector.Basic
import TraceTally.Server.Target

/-!
# The administration pages

`/healthz` says that the process runs, `/readyz` that the store answers, `/metrics` shows the
counters. Every other path is not found, and only that leaves no trace in the audit trail.
-/

namespace TraceTally.Admin

structure Response where
  status : Nat
  contentType : Option String := none
  body : String
  deriving DecidableEq, Repr

variable {σ V : Type} [EventStore σ V]

/-- The page for a path. `locked` says that the buffer cannot be looked at, for a write or a flush
holds it; then the number of keys is not shown. -/
def page (locked : Bool) (path : String) (c : Collector σ V) : Response × Collector σ V :=
  match path with
  | "/healthz" => (⟨200, none, "ok\n"⟩, c)
  | "/readyz" =>
    match EventStore.ping c.store with
    | (.error _, store) => (⟨503, none, "not ready\n"⟩, { c with store })
    | (.ok (), store) =>
      let buffered :=
        if locked then "flush in progress"
        else String.ofList (Text.digits c.totals.size) ++ " buffered keys"
      (⟨200, none, "ready (" ++ EventStore.name σ ++ " store, " ++ buffered ++ ")\n"⟩, { c with store })
  | "/metrics" => (⟨200, some "text/plain; version=0.0.4", c.metrics.expose⟩, c)
  | _ => (⟨404, none, "not found\n"⟩, c)

def handle (locked : Bool) (path : String) (c : Collector σ V) : Response × Collector σ V :=
  let (r, c) := page locked path c
  (r, if r.status = 404 then c else c.log (.adminRequest path r.status))

/-- A request by its target; a text that is no target is not answered. -/
def request (locked : Bool) (target : String) (c : Collector σ V) :
    Except TargetError (Response × Collector σ V) :=
  (Target.read (Text.utf8 target.toList)).map fun t =>
    handle locked (String.ofList ((Text.ofUtf8? t.path).getD [])) c

end TraceTally.Admin
