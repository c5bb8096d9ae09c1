import TraceTally.Event

/-!
# The audit trail

Access checks and destructive operations leave an event in the trail.
-/

namespace TraceTally

/-- The result of checking a bearer token. -/
inductive AuthOutcome where
  | accepted
  | missingHeader
  | malformedHeader
  | wrongToken
  deriving DecidableEq, Repr

def AuthOutcome.name : AuthOutcome → String
  | .accepted => "accepted"
  | .missingHeader => "missing_header"
  | .malformedHeader => "malformed_header"
  | .wrongToken => "wrong_token"

inductive AuditEvent where
  | authChecked (outcome : AuthOutcome)
  | eventsDeleted (filter : Filter) (rows : Nat)
  | adminRequest (path : String) (status : Nat)
  deriving DecidableEq, Repr

inductive AuditLevel where
  | info
  | warn
  deriving DecidableEq, Repr

def AuditLevel.name : AuditLevel → String
  | .info => "INFO"
  | .warn => "WARN"

/-- Only a refused access is a warning. -/
def AuditEvent.level : AuditEvent → AuditLevel
  | .authChecked .accepted => .info
  | .authChecked _ => .warn
  | _ => .info

/-- The value of a field of the trail: a text or a number. -/
inductive AuditValue where
  | text (s : String)
  | number (n : Nat)
  deriving DecidableEq, Repr

/-- A field of a filter in the trail; a star stands for any value. -/
def AuditValue.ofOption (value : Option String) : AuditValue := .text (value.getD "*")

def AuditEvent.fields (e : AuditEvent) : List (String × AuditValue) :=
  let own : List (String × AuditValue) := match e with
    | .authChecked outcome => [("event", .text "grpc_auth"), ("outcome", .text outcome.name)]
    | .eventsDeleted f rows =>
      [("event", .text "events_deleted"), ("trace_id", .ofOption f.traceId),
       ("origin", .ofOption f.origin), ("event_name", .ofOption f.eventName), ("rows", .number rows)]
    | .adminRequest path status =>
      [("event", .text "admin_http_request"), ("path", .text path), ("status", .number status)]
  ("level", .text e.level.name) :: own

end TraceTally
