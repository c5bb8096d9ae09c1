/-!
# Why an operation of the collector fails

Each failure carries the reason its source gave. A failure is transient if the same operation may
succeed when it is tried again.
-/

namespace TraceTally

inductive Failure where
  /-- The filter holds a value that no record can be asked for. -/
  | invalidFilter (reason : String)
  /-- The store could not be reached, or a scan or a removal failed. -/
  | storeUnavailable (reason : String)
  /-- A batch write was rejected or failed part way. -/
  | storeWriteFailed (reason : String)
  /-- No identifier could be made for a new row. -/
  | identifierGenerationFailed (reason : String)
  deriving DecidableEq, Repr

def Failure.message : Failure → String
  | .invalidFilter reason => "invalid filter: " ++ reason
  | .storeUnavailable reason => "store unavailable: " ++ reason
  | .storeWriteFailed reason => "store write failed: " ++ reason
  | .identifierGenerationFailed reason => "identifier generation failed: " ++ reason

def Failure.isTransient : Failure → Bool
  | .invalidFilter _ => false
  | .storeUnavailable _ | .storeWriteFailed _ | .identifierGenerationFailed _ => true

end TraceTally
