import TraceTally.Binary64.Layout
import TraceTally.Event
import TraceTally.Text.Blank
import TraceTally.Text.Bytes

/-!
# Events as a table

One line per event after a heading: name, value and unit, two blanks apart. Names are padded to one
width, which is the longest name's length in bytes; values are set to the right in a field of
fourteen. What is longer than its field is written whole.
-/

namespace TraceTally.EventTable

def nameHeading : List Char := "EVENT".toList

def valueHeading : List Char := "VALUE".toList

def unitHeading : List Char := "UNIT".toList

def valueWidth : Nat := 14

/-- The width of the name column. -/
def nameWidth (events : List (Event Binary64)) : Nat :=
  events.foldl (fun w e => max w (Text.byteLength e.name.toList)) nameHeading.length

def row (width : Nat) (name value unit : List Char) : List Char :=
  Text.padEnd width name ++ [' ', ' '] ++ Text.padStart valueWidth value ++ [' ', ' '] ++ unit

/-- The lines of the table, the heading first. -/
def lines (events : List (Event Binary64)) : List (List Char) :=
  let width := nameWidth events
  row width nameHeading valueHeading unitHeading ::
    events.map fun e => row width e.name.toList (Binary64.Layout.plain.write e.value) e.unit.toList

/-- Every line ends with a line feed. -/
def write (events : List (Event Binary64)) : String :=
  String.ofList ((lines events).flatMap fun line => line ++ ['\n'])

end TraceTally.EventTable
