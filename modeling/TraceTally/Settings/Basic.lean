import TraceTally.Collector.Basic

/-!
# Settings of the aggregator

All settings have a default. A setting out of its range is reported by the first rule that it breaks;
the size of messages and the texts of addresses and of the token are taken as they come.
-/

namespace TraceTally

inductive StorageSettings where
  | inMemory
  | clickHouse (endpoint database : String) (user password : Option String)
  deriving DecidableEq, Repr

structure FlushSettings where
  /-- How many keys the buffer may hold without a flush. -/
  capacity : Nat := 1000
  interval : Duration := .ofSeconds 10
  deriving DecidableEq, Repr

structure Settings where
  listenAddress : String := "0.0.0.0:50051"
  adminAddress : String := "0.0.0.0:9090"
  maxMessageSize : Nat := 16777216
  authToken : Option String := none
  recordLifetime : Duration := .ofSeconds 604800
  flush : FlushSettings := {}
  retry : RetryPolicy := {}
  storage : StorageSettings := .inMemory
  deriving DecidableEq, Repr

inductive SettingsFault where
  | zeroCapacity
  | zeroInterval
  | shortLifetime
  | zeroAttempts
  | incompleteStorage
  deriving DecidableEq, Repr

def SettingsFault.message : SettingsFault → String
  | .zeroCapacity => "flush.buffer_size must be greater than 0"
  | .zeroInterval => "flush.interval must be greater than 0"
  | .shortLifetime => "record_ttl must be at least one second"
  | .zeroAttempts => "retry.max_attempts must be at least 1"
  | .incompleteStorage => "clickhouse storage needs both endpoint and database"

namespace StorageSettings

def isComplete : StorageSettings → Bool
  | .inMemory => true
  | .clickHouse endpoint database _ _ => !endpoint.isEmpty && !database.isEmpty

end StorageSettings

namespace Settings

def fault? (s : Settings) : Option SettingsFault :=
  if s.flush.capacity = 0 then some .zeroCapacity
  else if s.flush.interval.isZero then some .zeroInterval
  else if s.recordLifetime.seconds = 0 then some .shortLifetime
  else if s.retry.maxAttempts = 0 then some .zeroAttempts
  else if !s.storage.isComplete then some .incompleteStorage
  else none

/-- What the collector is to know. -/
def bufferPolicy (s : Settings) : BufferPolicy :=
  { capacity := s.flush.capacity, interval := s.flush.interval, lifetime := s.recordLifetime
    retry := s.retry }

theorem fault?_default : fault? {} = none := by decide

end Settings

end TraceTally
