import TraceTally.Client.Run
import TraceTally.Server.Address
import TraceTally.Settings.Load

/-!
# Launching the aggregator

The program prints the default settings on request. Otherwise it loads its settings, makes the store,
reads its two addresses and serves until it is told to stop. It ends at the first of these steps that
fails, with a message that names the step.
-/

namespace TraceTally.Server

open CommandLine (Switch Grammar Given UsageError)
open Client (Outcome)

structure Options where
  config : Option String
  printsDefaults : Bool
  deriving DecidableEq, Repr

def grammar : Grammar where
  switches := [
    { long := "config", letter := some 'c', environment := some "SPANSTAT_CONFIG"
      check := fun v => if v.isEmpty then some .invalidValue else none },
    { long := "verbose", letter := some 'v', role := .flag },
    { long := "print-default-config", role := .flag },
    CommandLine.helpSwitch, CommandLine.versionSwitch]

def readCommandLine (environment : String → Option String) (words : List String) :
    Except UsageError Options :=
  (CommandLine.read grammar environment words).map fun g =>
    ⟨g.value? "config", g.has "print-default-config"⟩

/-- Why the aggregator does not serve, or not any more. -/
inductive LaunchError where
  | settings (e : Settings.LoadError)
  | storageNotBuiltIn
  | adminAddress
  | listenAddress
  | serverFailed
  deriving DecidableEq, Repr

def LaunchError.message : LaunchError → String
  | .settings e => e.message
  | .storageNotBuiltIn =>
    "ClickHouse storage requested but built without `clickhouse-storage`"
  | .adminAddress => "Invalid admin address"
  | .listenAddress => "Invalid listen address"
  | .serverFailed => "gRPC server error"

/-- What the aggregator is to serve with: its policy, its token and its two addresses. -/
structure Plan where
  policy : BufferPolicy
  token : Option String
  admin : SocketAddress
  listen : SocketAddress
  deriving Repr

def plan (s : Settings) : Except LaunchError Plan :=
  match s.storage with
  | .clickHouse .. => .error .storageNotBuiltIn
  | .inMemory =>
    match SocketAddress.read? s.adminAddress with
    | none => .error .adminAddress
    | some admin =>
      match SocketAddress.read? s.listenAddress with
      | none => .error .listenAddress
      | some listen => .ok ⟨s.bufferPolicy, s.authToken, admin, listen⟩

def version : String := "spanstat-aggregator 0.1.0\n"

def failed (e : LaunchError) : Outcome := { exit := 1, complaint := "Error: " ++ e.message ++ "\n" }

/-- The program. `serves` says whether the addresses of a plan can be served on. -/
def launch (files : String → Option String) (env : List (String × String))
    (serves : Plan → Bool) (words : List String) : Outcome :=
  let environment (name : String) : Option String :=
    (env.find? fun (n, _) => n = name).map Prod.snd
  match readCommandLine environment words with
  | .error e => { exit := e.exitCode, output := if e = .displayVersion then version else "" }
  | .ok o =>
    if o.printsDefaults then { exit := 0, output := (Settings.write? {}).getD "" }
    else
      match Settings.load files o.config env with
      | .error e => failed (.settings e)
      | .ok s =>
        match plan s with
        | .error e => failed e
        | .ok p => if serves p then { exit := 0 } else failed .serverFailed

end TraceTally.Server
