import TraceTally.Failure

/-!
# Status codes of remote calls
-/

namespace TraceTally

inductive StatusCode where
  | invalidArgument
  | unavailable
  | internal
  | unauthenticated
  deriving DecidableEq, Repr

def StatusCode.name : StatusCode → String
  | .invalidArgument => "InvalidArgument"
  | .unavailable => "Unavailable"
  | .internal => "Internal"
  | .unauthenticated => "Unauthenticated"

structure RpcStatus where
  code : StatusCode
  message : String
  deriving DecidableEq, Repr

/-- Both failures of the store are the same to a caller. -/
def Failure.code : Failure → StatusCode
  | .invalidFilter _ => .invalidArgument
  | .storeUnavailable _ | .storeWriteFailed _ => .unavailable
  | .identifierGenerationFailed _ => .internal

def Failure.toStatus (f : Failure) : RpcStatus := ⟨f.code, f.message⟩

end TraceTally
