import TraceTally.Binary64.Layout
import TraceTally.Settings.Tree
import TraceTally.Text.Digits

/-!
# From trees to settings

Every setting that a tree has is read by its kind; one that it lacks keeps its default, and names that
no setting has are passed over. A section may also be a list of its settings in their order. The
storage is chosen by its type, and its settings are texts as they stand.

There are two sets of rules. The strict ones take only values of the very kind. The lenient ones also
take a number or a flag for a text, and a text, a flag or a double for a number.
-/

namespace TraceTally.Settings

structure Rules where
  text : Tree → Option String
  /-- A whole number of 64 bits without a sign. -/
  count : Tree → Option Nat
  /-- A whole number of 32 bits without a sign. -/
  smallCount : Tree → Option Nat
  /-- The name that chooses between names. -/
  choice : Tree → Option String

/-- Half a unit goes away from zero; what lies out of range becomes the nearest number in range, and
what is no number zero. -/
def roundToCount (x : Binary64) : Nat :=
  if x.isNaN || x.isNegative then 0
  else if x.isInfinite then Text.maxNat64
  else if 0 ≤ x.exponent then min (x.mantissa * 2 ^ x.exponent.toNat) Text.maxNat64
  else
    let unit := 2 ^ (-x.exponent).toNat
    min ((2 * x.mantissa + unit) / (2 * unit)) Text.maxNat64

/-- A flag in words, or a number. -/
def countOfText? (s : String) : Option Nat :=
  match String.ofList (s.toList.map Char.toLower) with
  | "true" | "on" | "yes" => some 1
  | "false" | "off" | "no" => some 0
  | _ => (Text.readNat Text.maxNat64 s.toList).toOption

def lenientText : Tree → Option String
  | .text s => some s
  | .flag b => some (if b then "true" else "false")
  | .whole n => some (String.ofList (Text.intDigits n))
  | .real x => some (Binary64.plain x)
  | _ => none

def lenientCount : Tree → Option Nat
  | .text s => countOfText? s
  | .flag b => some (if b then 1 else 0)
  | .whole n => if 0 ≤ n then some n.toNat else none
  | .real x => some (roundToCount x)
  | _ => none

/-- Of a number of attempts the low 32 bits are kept. -/
def lenient : Rules where
  text := lenientText
  count := lenientCount
  smallCount t := (lenientCount t).map (· % 2 ^ 32)
  choice
    | .text s => some s
    | .table [(name, _)] => some name
    | _ => none

def strictCount (limit : Nat) : Tree → Option Nat
  | .whole n => if 0 ≤ n && n.toNat ≤ limit then some n.toNat else none
  | _ => none

def strictText : Tree → Option String
  | .text s => some s
  | _ => none

/-- A chosen name may be the only entry of a table, if nothing is said about it. -/
def strict : Rules where
  text := strictText
  count := strictCount Text.maxNat64
  smallCount := strictCount (2 ^ 32 - 1)
  choice
    | .text s => some s
    | .table [(name, .table [])] | .table [(name, .list [])] => some name
    | _ => none

/-- A setting of a section: its name, and what its value does to the section. -/
abbrev Entry (α : Type) := String × (Tree → α → Option α)

def entry {α β : Type} (name : String) (read : Tree → Option β) (put : α → β → α) : Entry α :=
  (name, fun t a => (read t).map (put a))

/-- A section whose settings are `fields`. Values of a list beyond the last setting are ignored. -/
def readSection? {α : Type} (fields : List (Entry α)) (default : α) : Tree → Option α
  | .table es =>
    fields.foldlM (fun a (name, put) =>
      match Entries.get? name es with
      | some t => put t a
      | none => some a) default
  | .list ts => (fields.zip ts).foldlM (fun a ((_, put), t) => put t a) default
  | _ => none

namespace Rules

variable (r : Rules)

def duration (t : Tree) : Option Duration := (r.text t).bind fun s => (Duration.ofString? s).toOption

def optionalText : Tree → Option (Option String)
  | .unset => some none
  | t => (r.text t).map some

def onExhausted (t : Tree) : Option OnExhausted :=
  (r.choice t).bind fun name => [OnExhausted.discard, .requeue].find? fun o => o.name = name

def flush : Tree → Option FlushSettings :=
  readSection? [
    entry "buffer_size" r.count fun s capacity => { s with capacity },
    entry "interval" r.duration fun s interval => { s with interval }] {}

def retry : Tree → Option RetryPolicy :=
  readSection? [
    entry "max_attempts" r.smallCount fun s maxAttempts => { s with maxAttempts },
    entry "initial_delay" r.duration fun s initialDelay => { s with initialDelay },
    entry "on_exhausted" r.onExhausted fun s onExhausted => { s with onExhausted }] {}

end Rules

def optionalPlainText : Tree → Option (Option String)
  | .unset => some none
  | t => (strictText t).map some

/-- The settings of a ClickHouse server, by name or by position. -/
def clickHouse? : Tree → Option StorageSettings
  | .table es => do
    let endpoint ← (Entries.get? "endpoint" es).bind strictText
    let database ← (Entries.get? "database" es).bind strictText
    let user ← optionalPlainText ((Entries.get? "user" es).getD .unset)
    let password ← optionalPlainText ((Entries.get? "password" es).getD .unset)
    some (.clickHouse endpoint database user password)
  | .list (endpoint :: database :: rest) => do
    let endpoint ← strictText endpoint
    let database ← strictText database
    if 2 < rest.length then none
    else
      let user ← optionalPlainText (rest.getD 0 .unset)
      let password ← optionalPlainText (rest.getD 1 .unset)
      some (.clickHouse endpoint database user password)
  | _ => none

/-- Nothing more is to be said about storage in memory: named settings are passed over, but a position
in a list would have no meaning. -/
def inMemory? : Tree → Option StorageSettings
  | .list (_ :: _) => none
  | _ => some .inMemory

def storageOfType? (type content : Tree) : Option StorageSettings :=
  match type with
  | .text "in_memory" => inMemory? content
  | .text "clickhouse" => clickHouse? content
  | _ => none

def storage? : Tree → Option StorageSettings
  | .table es => (Entries.get? "type" es).bind fun type => storageOfType? type (.table es)
  | .list (type :: rest) => storageOfType? type (.list rest)
  | _ => none

/-- All settings, by the rules for their values. -/
def decode? (r : Rules) : Tree → Option Settings :=
  readSection? [
    entry "listen_addr" r.text fun s listenAddress => { s with listenAddress },
    entry "admin_addr" r.text fun s adminAddress => { s with adminAddress },
    entry "max_message_size" r.count fun s maxMessageSize => { s with maxMessageSize },
    entry "auth_token" r.optionalText fun s authToken => { s with authToken },
    entry "record_ttl" r.duration fun s recordLifetime => { s with recordLifetime },
    entry "flush" r.flush fun s flush => { s with flush },
    entry "retry" r.retry fun s retry => { s with retry },
    entry "storage" storage? fun s storage => { s with storage }] {}

end TraceTally.Settings
