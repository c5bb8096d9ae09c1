import TraceTally.Server.Launch

/-!
# The program

`aggregator` as the first word launches the aggregator, any other words are the client's. All that the
two decide is in their modules; here files and the environment are read and texts printed. The program
has no network: it serves on no address, and the client finds no aggregator.
-/

namespace TraceTally.Main

/-- The variables of this process. -/
def env : IO (List (String × String)) := do
  let text ← try IO.FS.readFile "/proc/self/environ" catch _ => pure ""
  let entries := Text.splitOn '\x00' text.toList
  return entries.filterMap fun e => (Text.splitAt? '=' e).map fun (name, value) =>
    (String.ofList name, String.ofList value)

def reason : IO.Error → String
  | .noFileOrDirectory .. => "No such file or directory (os error 2)"
  | .inappropriateType .. => "Is a directory (os error 21)"
  | .permissionDenied .. => "Permission denied (os error 13)"
  | e => toString e

def readFile (name : String) : IO (Except String String) := do
  try return .ok (← IO.FS.readFile name) catch e => return .error (reason e)

/-- All that is left of a stream. -/
partial def readRest (stream : IO.FS.Stream) (before : String) : IO String := do
  let line ← stream.getLine
  if line.isEmpty then return before else readRest stream (before ++ line)

/-- The content of a file that has a name, if it can be read. -/
def contents (names : List String) : IO (List (String × Except String String)) :=
  names.mapM fun name => return (name, ← readFile name)

def find (files : List (String × Except String String)) (name : String) : Except String String :=
  match files.find? fun (n, _) => n = name with
  | some (_, content) => content
  | none => .error "No such file or directory (os error 2)"

def finish (o : Client.Outcome) : IO UInt32 := do
  IO.print o.output
  IO.eprint o.complaint
  return UInt32.ofNat o.exit

/-- The files that a client command reads, and whether it reads the standard input. -/
def inputs : Client.Command → List String
  | .insert o => o.file.toList
  | _ => []

def client (environment : String → Option String) (words : List String) : IO UInt32 := do
  let names := match Client.readCommandLine environment words with
    | .ok (_, c) => inputs c
    | .error _ => []
  let files ← contents (names.filter (· ≠ "-"))
  let input ← if names.contains "-" then (do return .ok (← readRest (← IO.getStdin) ""))
    else pure (.ok "")
  let w : Client.Surroundings Unit :=
    { fileText := find files, inputText := fun _ => input, connect := fun _ => none }
  finish (Client.run w environment words ()).1

def aggregator (env : List (String × String)) (environment : String → Option String)
    (words : List String) : IO UInt32 := do
  let names := match Server.readCommandLine environment words with
    | .ok o => o.config.toList.flatMap fun name => [name, name ++ ".toml"]
    | .error _ => []
  let files ← contents names
  finish (Server.launch (fun name => (find files name).toOption) env (fun _ => false) words)

end TraceTally.Main

def main (words : List String) : IO UInt32 := do
  let env ← TraceTally.Main.env
  let environment (name : String) := (env.find? fun (n, _) => n = name).map Prod.snd
  match words with
  | "aggregator" :: rest => TraceTally.Main.aggregator env environment rest
  | words => TraceTally.Main.client environment words
