import TraceTally.Client.EventArgument
import TraceTally.CommandLine.Scan
import TraceTally.Selection

/-!
# The client's command line

Three commands: `insert` submits events of one origin and trace, or a file of entries; `query` prints
totals and `delete` removes what is stored, both for a selection. Where the aggregator is and which
token it wants can be given before or behind the command, or by the environment.
-/

namespace TraceTally.Client

open CommandLine (Switch Grammar Given Scan UsageError)

structure Connection where
  endpoint : String
  token : Option String
  deriving DecidableEq, Repr

structure InsertOptions where
  origin : Option String
  traceId : Option String
  file : Option String
  events : List (Event Binary64)
  deriving DecidableEq, Repr

structure QueryOptions where
  selection : Selection
  json : Bool
  deriving DecidableEq, Repr

inductive Command where
  | insert (options : InsertOptions)
  | query (options : QueryOptions)
  | delete (selection : Selection)
  deriving DecidableEq, Repr

def originSwitch : Switch := { long := "origin", letter := some 'o' }

def traceSwitch : Switch := { long := "trace-id", letter := some 't' }

def eventsSwitch : Switch :=
  { long := "event", role := .repeated
    check := fun v =>
      match EventArgument.read v.toList with
      | .ok _ => none
      | .error _ => some .valueValidation }

/-- A file must have a name. -/
def fileSwitch : Switch :=
  { long := "file", letter := some 'f'
    check := fun v => if v.isEmpty then some .invalidValue else none }

def insertGrammar : Grammar where
  switches := [originSwitch, traceSwitch, eventsSwitch, fileSwitch, CommandLine.helpSwitch]
  required := [("origin", "file"), ("trace-id", "file")]
  conflicts := [("file", "origin"), ("file", "trace-id"), ("file", "event")]

def deleteGrammar : Grammar where
  switches := [traceSwitch, originSwitch, { long := "event" }, CommandLine.helpSwitch]

def queryGrammar : Grammar where
  switches := { long := "json", role := .flag } :: deleteGrammar.switches

/-- Options that every command takes too. -/
def connectionSwitches : List Switch := [
  { long := "endpoint", letter := some 'e', environment := some "SPANSTAT_ENDPOINT" },
  { long := "token", environment := some "SPANSTAT_TOKEN" },
  { long := "verbose", letter := some 'v', role := .flag }]

def grammar : Grammar where
  switches := connectionSwitches ++ [CommandLine.helpSwitch, CommandLine.versionSwitch]
  commands := ["insert", "query", "delete", "help"]

def insertOptions (g : Given) : InsertOptions where
  origin := g.value? "origin"
  traceId := g.value? "trace-id"
  file := g.value? "file"
  events := (g.values "event").filterMap fun v => (EventArgument.read v.toList).toOption

def selection (g : Given) : Selection := ⟨g.value? "trace-id", g.value? "origin", g.value? "event"⟩

def queryOptions (g : Given) : QueryOptions := ⟨selection g, g.has "json"⟩

def readInsert (words : List String) : Except UsageError InsertOptions :=
  (CommandLine.read insertGrammar (fun _ => none) words).map insertOptions

def readQuery (words : List String) : Except UsageError QueryOptions :=
  (CommandLine.read queryGrammar (fun _ => none) words).map queryOptions

/-- Help on a command that there is. -/
def help (words : List String) : UsageError :=
  match words with
  | [] => .displayHelp
  | [name] => if grammar.commands.contains name then .displayHelp else .invalidSubcommand
  | _ => .invalidSubcommand

def command (name : String) (words : List String) : Except UsageError (Given × Command) :=
  let options (g : Grammar) : Except UsageError Given :=
    CommandLine.read { g with switches := g.switches ++ connectionSwitches } (fun _ => none) words
  match name with
  | "insert" => (options insertGrammar).map fun g => (g, .insert (insertOptions g))
  | "query" => (options queryGrammar).map fun g => (g, .query (queryOptions g))
  | "delete" => (options deleteGrammar).map fun g => (g, .delete (selection g))
  | _ => .error (help words)

def defaultEndpoint : String := "http://127.0.0.1:50051"

/-- What stands behind the command counts before what stands in front of it, and both before the
environment. -/
def connection (inner outer : Given) : Connection where
  endpoint := ((inner.value? "endpoint").or (outer.value? "endpoint")).getD defaultEndpoint
  token := (inner.value? "token").or (outer.value? "token")

def readCommandLine (environment : String → Option String) (words : List String) :
    Except UsageError (Connection × Command) := do
  let (s, found) ← Scan.words grammar {} words
  match found with
  | none =>
    let outer ← s.conclude grammar (fun _ => none)
    .error (if outer.isEmpty then .nothingGiven else .missingSubcommand)
  | some (name, rest) =>
    let (inner, c) ← command name rest
    let outer ← s.conclude grammar environment
    .ok (connection inner outer, c)

end TraceTally.Client
