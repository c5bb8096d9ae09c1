import TraceTally.Text.Digits
import TraceTally.Toml.Text

/-!
# Writing TOML documents

A document that is written has entries at the top and then sections, each behind a blank line and its
header. Entries are texts and whole numbers, and a number that takes more than 63 bits cannot be
written.
-/

namespace TraceTally.Toml

inductive Leaf where
  | text (s : String)
  | count (n : Nat)
  deriving DecidableEq, Repr

structure Layout where
  top : List (String × Leaf)
  sections : List (String × List (String × Leaf))
  deriving DecidableEq, Repr

def Leaf.write? : Leaf → Option (List Char)
  | .text s => some (writeText s)
  | .count n => if n ≤ Text.maxInt64 then some (Text.digits n) else none

/-- Names are written bare. -/
def writeEntry? : String × Leaf → Option (List Char)
  | (name, leaf) => leaf.write?.map fun cs => name.toList ++ " = ".toList ++ cs ++ ['\n']

def writeEntries? (entries : List (String × Leaf)) : Option (List Char) :=
  (entries.mapM writeEntry?).map List.flatten

def writeSection? : String × List (String × Leaf) → Option (List Char)
  | (name, entries) => (writeEntries? entries).map fun body =>
      '\n' :: '[' :: name.toList ++ [']', '\n'] ++ body

def Layout.write? (l : Layout) : Option (List Char) := do
  let top ← writeEntries? l.top
  let sections ← l.sections.mapM writeSection?
  some (top ++ sections.flatten)

end TraceTally.Toml
