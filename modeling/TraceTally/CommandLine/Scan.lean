import TraceTally.CommandLine.Basic
import TraceTally.Text.Blank

/-!
# Reading a command line

A value stands in the word after its option, or in the same word: behind an equals sign, or behind the
letter at once. Letters of options without values can be joined in one word. A word that begins with a
dash and more is never a value of the option before it, and behind two dashes there are no options.

What is wrong is reported at the first word that shows it. A value is checked when the next option
comes, so a word that is no option, or that gives a value to an option without one, is reported before
a wrong value that stands right before it.
-/

namespace TraceTally.CommandLine

structure Scan where
  given : Given := []
  /-- The option whose value is still to be checked, or still to come. -/
  pending : Option (Switch × Option String) := none
  /-- Whether two dashes have ended the options. -/
  ended : Bool := false

namespace Scan

/-- An option with the value that goes with it. -/
def add (s : Scan) (o : Switch) (value : Option String) : Except UsageError Scan :=
  let enter : Scan := { s with given := s.given ++ [(o.long, value.toList)] }
  match o.role, value with
  | .help, _ => .error .displayHelp
  | .version, _ => .error .displayVersion
  | .flag, _ => if s.given.has o.long then .error .argumentConflict else .ok enter
  | .single, none | .repeated, none => .error .invalidValue
  | .single, some v =>
    if s.given.has o.long then .error .argumentConflict
    else match o.check v with
      | some e => .error e
      | none => .ok enter
  | .repeated, some v =>
    match o.check v with
    | some e => .error e
    | none => .ok enter

/-- Checks the value that is pending. -/
def settle (s : Scan) : Except UsageError Scan :=
  match s.pending with
  | none => .ok s
  | some (o, value) => ({ s with pending := none }).add o value

def enter (s : Scan) (o : Switch) (value : Option String) : Except UsageError Scan := do
  (← s.settle).add o value

/-- The next word gives the option's value. -/
def await (s : Scan) (o : Switch) : Except UsageError Scan := do
  return { ← s.settle with pending := some (o, none) }

/-- Whether the next word may be a value. -/
def awaits (s : Scan) : Bool :=
  match s.pending with
  | some (_, none) => true
  | _ => false

/-- A word that begins with two dashes. -/
def long (g : Grammar) (s : Scan) (body : List Char) : Except UsageError Scan :=
  let (name, value) := match Text.splitAt? '=' body with
    | some (name, value) => (name, some (String.ofList value))
    | none => (body, none)
  match g.switches.find? fun o => o.long.toList = name with
  | none => .error .unknownArgument
  | some o =>
    if o.role.takesValue then
      match value with
      | some v => s.enter o (some v)
      | none => s.await o
    else if value.isSome then .error .tooManyValues
    else s.enter o none

/-- The letters of a word that begins with one dash. -/
def letters (g : Grammar) (s : Scan) : List Char → Except UsageError Scan
  | [] => .ok s
  | c :: rest =>
    match g.switches.find? fun o => o.letter = some c with
    | none => .error .unknownArgument
    | some o =>
      if o.role.takesValue then
        match rest with
        | [] => s.await o
        | '=' :: value => s.enter o (some (String.ofList value))
        | value => s.enter o (some (String.ofList value))
      else do letters g (← s.enter o none) rest

/-- A word that names no option: a value, or one too many. -/
def plain (g : Grammar) (s : Scan) (word : String) : Except UsageError Scan :=
  match s.pending with
  | some (o, none) =>
    if s.ended then .error .unknownArgument
    else .ok { s with pending := some (o, some word) }
  | _ => .error (if g.commands.isEmpty || s.ended then .unknownArgument else .invalidSubcommand)

def word (g : Grammar) (s : Scan) (w : String) : Except UsageError Scan :=
  if s.ended then s.plain g w
  else match w.toList with
    | ['-', '-'] => .ok { s with ended := true }
    | '-' :: '-' :: body => s.long g body
    | '-' :: c :: rest => s.letters g (c :: rest)
    | _ => s.plain g w

/-- The words up to a command, and the command with those behind it. -/
def words (g : Grammar) (s : Scan) : List String → Except UsageError (Scan × Option (String × List String))
  | [] => .ok (s, none)
  | w :: rest =>
    if !s.ended && !s.awaits && g.commands.contains w then .ok (s, some (w, rest))
    else do words g (← s.word g w) rest

/-- Values from the environment for options that were not given. -/
def fill (environment : String → Option String) (s : Scan) (o : Switch) : Except UsageError Scan :=
  if s.given.has o.long then .ok s
  else match o.environment.bind environment with
    | none => .ok s
    | some v => s.add o (some v)

/-- What was given, once the last value is checked and no rule of the grammar is broken. -/
def conclude (g : Grammar) (environment : String → Option String) (s : Scan) :
    Except UsageError Given := do
  let s ← s.settle
  let explicit := s.given
  let s ← g.switches.foldlM (fill environment) s
  if g.conflicts.any fun (a, b) => explicit.has a && explicit.has b then .error .argumentConflict
  else if g.required.any fun (a, b) => !s.given.has a && !s.given.has b then
    .error .missingRequiredArgument
  else .ok s.given

end Scan

/-- A command line without commands. -/
def read (g : Grammar) (environment : String → Option String) (ws : List String) :
    Except UsageError Given := do
  let (s, _) ← Scan.words g {} ws
  s.conclude g environment

end TraceTally.CommandLine
