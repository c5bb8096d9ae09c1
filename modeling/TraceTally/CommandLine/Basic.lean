/-!
# Options of a command line

An option has a long name, perhaps a letter, and takes one value or none. A grammar says which options
there are, which of them need or exclude each other, and which commands may follow them.
-/

namespace TraceTally.CommandLine

inductive UsageError where
  | missingRequiredArgument
  | argumentConflict
  | unknownArgument
  | invalidValue
  /-- A value that breaks the rules of its option. -/
  | valueValidation
  | tooManyValues
  | invalidSubcommand
  | missingSubcommand
  /-- Nothing at all is given where a command is needed. -/
  | nothingGiven
  /-- The help text is asked for. -/
  | displayHelp
  | displayVersion
  deriving DecidableEq, Repr

def UsageError.name : UsageError → String
  | .missingRequiredArgument => "MissingRequiredArgument"
  | .argumentConflict => "ArgumentConflict"
  | .unknownArgument => "UnknownArgument"
  | .invalidValue => "InvalidValue"
  | .valueValidation => "ValueValidation"
  | .tooManyValues => "TooManyValues"
  | .invalidSubcommand => "InvalidSubcommand"
  | .missingSubcommand => "MissingSubcommand"
  | .nothingGiven => "DisplayHelpOnMissingArgumentOrSubcommand"
  | .displayHelp => "DisplayHelp"
  | .displayVersion => "DisplayVersion"

/-- What is asked for is shown and is no error to the shell. -/
def UsageError.exitCode : UsageError → Nat
  | .displayHelp | .displayVersion => 0
  | _ => 2

inductive Role where
  | flag
  /-- A value that is given once at most. -/
  | single
  /-- Values that add up. -/
  | repeated
  | help
  | version
  deriving DecidableEq, Repr

def Role.takesValue : Role → Bool
  | .single | .repeated => true
  | .flag | .help | .version => false

structure Switch where
  long : String
  letter : Option Char := none
  role : Role := .single
  /-- What is wrong with a value. -/
  check : String → Option UsageError := fun _ => none
  /-- The variable of the environment that gives the value when the command line does not. -/
  environment : Option String := none

structure Grammar where
  switches : List Switch
  commands : List String := []
  /-- Options that must be given, each unless another one is. -/
  required : List (String × String) := []
  /-- Options that must not be given together. -/
  conflicts : List (String × String) := []

def helpSwitch : Switch := { long := "help", letter := some 'h', role := .help }

def versionSwitch : Switch := { long := "version", letter := some 'V', role := .version }

/-- Options that were given, by their long names, with their values. -/
abbrev Given := List (String × List String)

namespace Given

def has (g : Given) (long : String) : Bool := g.any fun (name, _) => name = long

def values (g : Given) (long : String) : List String :=
  g.flatMap fun (name, vs) => if name = long then vs else []

def value? (g : Given) (long : String) : Option String := (g.values long).head?

end Given

end TraceTally.CommandLine
