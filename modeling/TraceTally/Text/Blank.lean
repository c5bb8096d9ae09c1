/-!
# Blank and control characters

White space is the Unicode property White_Space, not the ASCII class, and control characters are
the general category Cc. Trimming removes white space from both ends of a text.
-/

namespace TraceTally.Text

/-- The code points with the Unicode property White_Space, in increasing order. -/
def whiteSpace : List Nat :=
  [0x0009, 0x000A, 0x000B, 0x000C, 0x000D, 0x0020, 0x0085, 0x00A0, 0x1680,
   0x2000, 0x2001, 0x2002, 0x2003, 0x2004, 0x2005, 0x2006, 0x2007, 0x2008, 0x2009, 0x200A,
   0x2028, 0x2029, 0x202F, 0x205F, 0x3000]

def isBlank (c : Char) : Bool := whiteSpace.contains c.toNat

/-- Category Cc: the two blocks of control codes, C0 with DEL, and C1. -/
def isControl (c : Char) : Bool := c.toNat < 0x20 || (0x7F ≤ c.toNat && c.toNat < 0xA0)

example : whiteSpace.length = 25 := rfl

def trimStart (cs : List Char) : List Char := cs.dropWhile isBlank

def trimEnd (cs : List Char) : List Char := (cs.reverse.dropWhile isBlank).reverse

def trim (cs : List Char) : List Char := trimEnd (trimStart cs)

/-- What stands before `suffix`, when the text ends in it. -/
def dropSuffix? (suffix cs : List Char) : Option (List Char) :=
  if suffix.isSuffixOf cs then some (cs.take (cs.length - suffix.length)) else none

/-- What stands after `start`, when the text begins with it. -/
def dropStart? (start cs : List Char) : Option (List Char) :=
  if start.isPrefixOf cs then some (cs.drop start.length) else none

/-- The text before the first `c` and the text after it, when there is one. -/
def splitAt? (c : Char) : List Char → Option (List Char × List Char)
  | [] => none
  | d :: rest =>
    if d = c then some ([], rest) else (splitAt? c rest).map fun (l, r) => (d :: l, r)

/-- The parts between the separators; a text without any is its own single part. -/
def splitOn (c : Char) : List Char → List (List Char)
  | [] => [[]]
  | d :: rest =>
    if d = c then [] :: splitOn c rest
    else match splitOn c rest with
      | [] => [[d]]
      | part :: parts => (d :: part) :: parts

theorem splitOn_ne_nil (c : Char) (cs : List Char) : splitOn c cs ≠ [] := by
  cases cs with
  | nil => simp [splitOn]
  | cons d rest =>
    rw [splitOn]
    split
    · simp
    · split <;> simp

theorem splitOn_append {c : Char} {cs : List Char} (plain : ∀ d ∈ cs, d ≠ c) (rest : List Char) :
    splitOn c (cs ++ c :: rest) = cs :: splitOn c rest := by
  induction cs with
  | nil => simp [splitOn]
  | cons d cs ih =>
    have ordinary := plain d List.mem_cons_self
    have others := ih fun e he => plain e (List.mem_cons_of_mem _ he)
    simp [splitOn, ordinary, others]

theorem splitOn_plain {c : Char} {cs : List Char} (plain : ∀ d ∈ cs, d ≠ c) :
    splitOn c cs = [cs] := by
  induction cs with
  | nil => rfl
  | cons d cs ih =>
    have ordinary := plain d List.mem_cons_self
    have others := ih fun e he => plain e (List.mem_cons_of_mem _ he)
    simp [splitOn, ordinary, others]

def join (separator : List Char) : List (List Char) → List Char
  | [] => []
  | [part] => part
  | part :: rest => part ++ separator ++ join separator rest

def padEnd (width : Nat) (cs : List Char) : List Char :=
  cs ++ List.replicate (width - cs.length) ' '

def padStart (width : Nat) (cs : List Char) : List Char :=
  List.replicate (width - cs.length) ' ' ++ cs

end TraceTally.Text
