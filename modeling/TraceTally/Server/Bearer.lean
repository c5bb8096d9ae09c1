import TraceTally.Collector.Audit
import TraceTally.Server.Status
import TraceTally.Text.Bytes

/-!
# Bearer tokens

A client sends its token after `Bearer ` in a header; a server that expects a token compares what
follows `Bearer ` with it. A server that expects none lets every call pass and audits nothing.
-/

namespace TraceTally.Bearer

def scheme : Text.Bytes := Text.utf8 "Bearer ".toList

/-- What a header may hold when it is made: any byte but control codes, tab excepted, and DEL. -/
def isHeaderByte (b : UInt8) : Bool := b = 9 || (32 ≤ b && b ≠ 127)

/-- What a header must hold to be read as text: visible ASCII, blank or tab. -/
def isTextByte (b : UInt8) : Bool := b = 9 || (32 ≤ b && b < 127)

/-- The header for a token, unless the token is no header text. -/
def header? (token : String) : Option Text.Bytes :=
  let bytes := scheme ++ Text.utf8 token.toList
  if bytes.all isHeaderByte then some bytes else none

/-- The token that a header carries. -/
def token? (header : Text.Bytes) : Option Text.Bytes :=
  if header.all isTextByte && scheme.isPrefixOf header then some (header.drop scheme.length) else none

/-- The outcome of a call with or without a header, at a server that expects a token. -/
def check (expected : String) (header : Option Text.Bytes) : AuthOutcome :=
  match header with
  | none => .missingHeader
  | some bytes =>
    match token? bytes with
    | none => .malformedHeader
    | some token => if token = Text.utf8 expected.toList then .accepted else .wrongToken

def refusal? : AuthOutcome → Option String
  | .accepted => none
  | .missingHeader => some "Missing authorization header"
  | .malformedHeader => some "Expected 'Bearer <token>'"
  | .wrongToken => some "Invalid token"

/-- What a call is answered before it reaches the collector, and what it leaves in the trail. -/
def intercept (expected : Option String) (header : Option Text.Bytes) :
    Except RpcStatus Unit × List AuditEvent :=
  match expected with
  | none => (.ok (), [])
  | some token =>
    let outcome := check token header
    let result := match refusal? outcome with
      | none => .ok ()
      | some message => .error ⟨.unauthenticated, message⟩
    (result, [.authChecked outcome])

end TraceTally.Bearer
