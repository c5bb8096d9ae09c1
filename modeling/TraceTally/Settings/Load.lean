import TraceTally.Settings.Decode
import TraceTally.Settings.Write
import TraceTally.Toml.Document

/-!
# Loading settings

Settings are laid over each other in three layers: the defaults, a file if one is named, and variables
of the environment. What comes out is read by the lenient rules and then checked. A file must be a
TOML document and be named like one; if there is none of the given name, the ending may be left out.
-/

namespace TraceTally.Settings

inductive LoadError where
  /-- The file is missing, not named like a document or not one. -/
  | unreadable
  /-- A name has a position before the start of a list, which ends the program. The text is that of a
  build that checks arithmetic; without checks the list is then found to be too short or too long. -/
  | outOfRange
  /-- A value does not fit its setting. -/
  | mismatch
  | invalid (fault : SettingsFault)
  deriving DecidableEq, Repr

def LoadError.message : LoadError → String
  | .unreadable => "Read configuration"
  | .outOfRange => "attempt to subtract with overflow"
  | .mismatch => "Parse configuration"
  | .invalid fault => fault.message

def checked (s : Settings) : Except LoadError Settings :=
  match s.fault? with
  | some fault => .error (.invalid fault)
  | none => .ok s

/-- The ending of a file's name: what follows its last dot, if something stands before that. -/
def ending? (name : String) : Option String :=
  let file := ((Text.splitOn '/' name.toList).getLast?).getD []
  let reversed := file.reverse
  match Text.splitAt? '.' reversed with
  | some (ending, _ :: _) => some (String.ofList ending.reverse)
  | _ => none

/-- The text of the document that `name` stands for. -/
def locate (files : String → Option String) (name : String) : Option String :=
  match files name with
  | some text => if ending? name = some "toml" then some text else none
  | none => files (name ++ ".toml")

/-- The layer of a document. -/
def ofDocument (text : String) : Option (List (String × Tree)) :=
  (Toml.read? text.toList).map (tableOfToml .asText)

/-- The layers, the lowest first. -/
def merge (file environment : List (String × Tree)) : Option Tree :=
  (overlay (.table (tree {})) file).bind (overlay · environment)

/-- The settings of a document and of the environment. -/
def loadLayers (file environment : List (String × Tree)) : Except LoadError Settings :=
  match merge file environment with
  | none => .error .outOfRange
  | some t =>
    match decode? lenient t with
    | none => .error .mismatch
    | some s => checked s

/-- The settings of a document, if one is given, and of the environment. -/
def loadText (document : Option String) (env : List (String × String)) :
    Except LoadError Settings :=
  match (match document with
    | none => some []
    | some text => ofDocument text) with
  | none => .error .unreadable
  | some file => loadLayers file (ofEnvironment env)

/-- The settings of the named file, if one is named, and of the environment. -/
def load (files : String → Option String) (name : Option String) (env : List (String × String)) :
    Except LoadError Settings :=
  match name with
  | none => loadText none env
  | some name =>
    match locate files name with
    | none => .error .unreadable
    | some text => loadText (some text) env

/-- The settings of a document alone, by the strict rules; unchecked. -/
def ofText? (text : String) : Option Settings :=
  (Toml.read? text.toList).bind fun table => decode? strict (.table (tableOfToml .asTable table))

end TraceTally.Settings
