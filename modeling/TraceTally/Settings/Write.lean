import TraceTally.Settings.Tree
import TraceTally.Toml.Write

/-!
# Settings as a document, and as a tree

Every setting is written in its place; a token, user or password that is not set is left out.
-/

namespace TraceTally.Settings

def duration (d : Duration) : Toml.Leaf := .text d.toText

/-- A text that is left out when it is not set. -/
def given (name : String) (s : Option String) : List (String × Toml.Leaf) :=
  (s.map fun s => (name, .text s)).toList

def storageEntries : StorageSettings → List (String × Toml.Leaf)
  | .inMemory => [("type", .text "in_memory")]
  | .clickHouse endpoint database user password =>
    [("type", .text "clickhouse"), ("endpoint", .text endpoint), ("database", .text database)] ++
      given "user" user ++ given "password" password

def layout (s : Settings) : Toml.Layout where
  top :=
    [("listen_addr", .text s.listenAddress), ("admin_addr", .text s.adminAddress),
      ("max_message_size", .count s.maxMessageSize)] ++
      given "auth_token" s.authToken ++ [("record_ttl", duration s.recordLifetime)]
  sections := [
    ("flush", [("buffer_size", .count s.flush.capacity), ("interval", duration s.flush.interval)]),
    ("retry", [("max_attempts", .count s.retry.maxAttempts),
      ("initial_delay", duration s.retry.initialDelay),
      ("on_exhausted", .text s.retry.onExhausted.name)]),
    ("storage", storageEntries s.storage)]

/-- The document, unless a number is too large for it. -/
def write? (s : Settings) : Option String := s.layout.write?.map String.ofList

def leaf : Toml.Leaf → Tree
  | .text s => .text s
  | .count n => .whole n

def branch (es : List (String × Toml.Leaf)) : List (String × Tree) :=
  es.map fun (name, l) => (name, leaf l)

/-- The tree that sources are laid over: a token that is not set is a setting without value. -/
def tree (s : Settings) : List (String × Tree) :=
  (if s.authToken.isNone then [("auth_token", .unset)] else []) ++ branch s.layout.top ++
    s.layout.sections.map fun (name, es) => (name, .table (branch es))

end TraceTally.Settings
