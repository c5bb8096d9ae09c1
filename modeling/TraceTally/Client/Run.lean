import TraceTally.Client.Command
import TraceTally.Client.EventTable
import TraceTally.Json.Record
import TraceTally.Server.Bearer
import TraceTally.Server.Target

/-!
# Running a client command

A command reads its input, connects to the aggregator, makes one call and prints what came of it. It
stops at the first thing that goes wrong, with a message that begins with what was being done.

Files, standard input and the aggregator are given by the surroundings, so a run is a function.
-/

namespace TraceTally.Client

/-- What a program leaves: an exit code and what it wrote to its two outputs. -/
structure Outcome where
  exit : Nat
  output : String := ""
  complaint : String := ""
  deriving DecidableEq, Repr

/-- The calls of an aggregator, each with the header that carries the token. -/
structure Service (σ : Type) where
  insert : Option Text.Bytes → List (Entry Binary64) → σ → Except RpcStatus Unit × σ
  query : Option Text.Bytes → Selection → σ → Except RpcStatus (List (Event Binary64)) × σ
  delete : Option Text.Bytes → Selection → σ → Except RpcStatus Nat × σ

structure Surroundings (σ : Type) where
  /-- The text of a file, or why it cannot be read. -/
  fileText : String → Except String String
  /-- The text of the standard input, or why it cannot be read. -/
  inputText : Unit → Except String String
  /-- The aggregator at an address, if it can be reached. -/
  connect : String → Option (Service σ)

/-- Why a command stopped. -/
inductive Stop where
  | inputUnreadable (reason : String)
  | fileUnreadable (name reason : String)
  | notEntries (e : Json.Error)
  | noSource
  | nothingToInsert
  | noFilter
  | invalidEndpoint (endpoint : String) (e : TargetError)
  | unreachable (endpoint : String)
  | invalidToken
  | refused (call : String) (status : RpcStatus)
  deriving DecidableEq, Repr

def RpcStatus.describe (s : RpcStatus) : String :=
  "status: " ++ s.code.name ++ ", message: " ++ String.ofList (Text.quote s.message.toList)

def Stop.message : Stop → String
  | .inputUnreadable reason => "Failed to read entries from stdin: " ++ reason
  | .fileUnreadable name reason => "Failed to read " ++ name ++ ": " ++ reason
  | .notEntries e =>
    "Entries must be a JSON array of \x7borigin, trace_id, events\x7d: " ++ e.message
  | .noSource => "--origin and --trace-id are required without --file"
  | .nothingToInsert => "Nothing to insert; pass at least one --event"
  | .noFilter => "Refusing to delete without a filter; pass --trace-id, --origin or --event"
  | .invalidEndpoint endpoint e =>
    "Failed to connect to aggregator at " ++ endpoint ++ ": invalid URI: " ++ e.message
  | .unreachable endpoint =>
    "Failed to connect to aggregator at " ++ endpoint ++ ": transport error"
  | .invalidToken => "Token is not valid header text: failed to parse metadata value"
  | .refused call status => call ++ " failed: " ++ RpcStatus.describe status

def readEntries {σ : Type} (w : Surroundings σ) (name : String) :
    Except Stop (List (Entry Binary64)) := do
  let text ← if name = "-" then (w.inputText ()).mapError .inputUnreadable
    else (w.fileText name).mapError (.fileUnreadable name)
  (Entry.listOfJson text).mapError .notEntries

/-- What is to be inserted: the content of the file, or one entry of the given events. -/
def collect {σ : Type} (w : Surroundings σ) (o : InsertOptions) :
    Except Stop (List (Entry Binary64)) :=
  match o.file with
  | some name => readEntries w name
  | none =>
    match o.origin, o.traceId with
    | some origin, some traceId =>
      if o.events.isEmpty then .error .nothingToInsert else .ok [⟨origin, traceId, o.events⟩]
    | _, _ => .error .noSource

def connect {σ : Type} (w : Surroundings σ) (endpoint : String) : Except Stop (Service σ) :=
  match Target.read (Text.utf8 endpoint.toList) with
  | .error e => .error (.invalidEndpoint endpoint e)
  | .ok _ =>
    match w.connect endpoint with
    | some service => .ok service
    | none => .error (.unreachable endpoint)

/-- The header of a call; without a token there is none. -/
def header (c : Connection) : Except Stop (Option Text.Bytes) :=
  match c.token with
  | none => .ok none
  | some token =>
    match Bearer.header? token with
    | some h => .ok (some h)
    | none => .error .invalidToken

def success (text : String) : String := "✓ " ++ text ++ "\n"

def notice (text : String) : String := "ℹ " ++ text ++ "\n"

def count (n : Nat) : String := String.ofList (Text.digits n)

def Command.needs {σ : Type} (w : Surroundings σ) : Command → Except Stop (List (Entry Binary64))
  | .insert o => collect w o
  | .query _ => .ok []
  | .delete s => if s.isEmpty then .error .noFilter else .ok []

def showEvents (o : QueryOptions) (events : List (Event Binary64)) : String :=
  if o.json then String.ofList (Json.list (events.map Event.json)).pretty ++ "\n"
  else if events.isEmpty then notice ("No events for " ++ o.selection.describe ++ ".")
  else EventTable.write events

/-- Makes the call, and what is printed when it succeeds. -/
def Command.call {σ : Type} (service : Service σ) (header : Option Text.Bytes)
    (entries : List (Entry Binary64)) (c : Command) (s : σ) : Except Stop String × σ :=
  match c with
  | .insert _ =>
    let (r, s) := service.insert header entries s
    let total := (entries.flatMap Entry.events).length
    ((r.mapError (.refused "Insert")).map fun _ => success ("Submitted " ++ count total ++ " event(s)"),
      s)
  | .query o =>
    let (r, s) := service.query header o.selection s
    ((r.mapError (.refused "Query")).map (showEvents o), s)
  | .delete selection =>
    let (r, s) := service.delete header selection s
    ((r.mapError (.refused "Delete")).map fun n =>
      success ("Deleted " ++ count n ++ " stored row(s) for " ++ selection.describe), s)

/-- The service, the header and the entries for a command. -/
def prepare {σ : Type} (w : Surroundings σ) (c : Connection) (command : Command) :
    Except Stop (Service σ × Option Text.Bytes × List (Entry Binary64)) := do
  let entries ← command.needs w
  let service ← connect w c.endpoint
  let h ← header c
  return (service, h, entries)

def execute {σ : Type} (w : Surroundings σ) (c : Connection) (command : Command) (s : σ) :
    Except Stop String × σ :=
  match prepare w c command with
  | .error e => (.error e, s)
  | .ok (service, h, entries) => command.call service h entries s

def version : String := "spanstat 0.1.0\n"

/-- The program: what a command line leads to. Help texts are left to the shell's manual. -/
def run {σ : Type} (w : Surroundings σ) (environment : String → Option String) (words : List String)
    (s : σ) : Outcome × σ :=
  match readCommandLine environment words with
  | .error e =>
    ({ exit := e.exitCode, output := if e = .displayVersion then version else "" }, s)
  | .ok (c, command) =>
    match execute w c command s with
    | (.ok text, s) => ({ exit := 0, output := text }, s)
    | (.error e, s) => ({ exit := 1, complaint := "✗ " ++ e.message ++ "\n" }, s)

end TraceTally.Client
