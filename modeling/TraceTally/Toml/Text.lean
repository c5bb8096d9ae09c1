import TraceTally.Text.Bytes
import TraceTally.Toml.Basic

/-!
# TOML strings

There are four notations: basic strings with escapes, between double quotes, and literal strings
without, between single quotes, each on one line or, with tripled quotes, on several. A line break
right behind tripled quotes is not part of the string, and a string may end in up to two quotes of its
own kind before the closing three. In a basic string on several lines a backslash at the end of a line
joins it to the next text.

A string is written in the simplest notation that needs no escape.
-/

namespace TraceTally.Toml

open TraceTally.Text (hexDigit hexValue?)

/-- What of a text decides on its notation. -/
structure Traits where
  /-- Control codes other than tab and line feed. -/
  controls : Bool
  backslash : Bool
  lineFeed : Bool
  /-- The longest runs of double and single quotes. -/
  doubles : Nat
  singles : Nat
  deriving DecidableEq, Repr

/-- The longest run of `q`, when `run` of them stand right before. -/
def longestRun (q : Char) (run : Nat) : List Char → Nat
  | [] => run
  | c :: rest => if c = q then longestRun q (run + 1) rest else max run (longestRun q 0 rest)

def traits (cs : List Char) : Traits where
  controls := cs.any fun c => !isPlain c && c ≠ '\n'
  backslash := cs.contains '\\'
  lineFeed := cs.contains '\n'
  doubles := longestRun '"' 0 cs
  singles := longestRun '\'' 0 cs

inductive Notation where
  | basic
  | literal
  | basicLines
  | literalLines
  deriving DecidableEq, Repr

/-- Escapes are needed for control codes, for backslashes and for what would end the string. -/
def notationFor (t : Traits) : Notation :=
  if !t.controls && !t.backslash && t.doubles = 0 && !t.lineFeed then .basic
  else if !t.controls && t.singles = 0 && !t.lineFeed then .literal
  else if !t.controls && !t.backslash && t.doubles ≤ 2 then .basicLines
  else if !t.controls && t.singles ≤ 2 then .literalLines
  else if t.lineFeed then .basicLines
  else .basic

def upperHex (n : Nat) : Char := (hexDigit n).toUpper

/-- A character that has no place in a basic string as it is, quotes and line feeds apart. -/
def escapeChar (c : Char) : List Char :=
  match c with
  | '\\' => ['\\', '\\']
  | '\x08' => ['\\', 'b']
  | '\t' => ['\\', 't']
  | '\x0c' => ['\\', 'f']
  | '\r' => ['\\', 'r']
  | c =>
    if isPlain c then [c]
    else ['\\', 'u', '0', '0', upperHex (c.toNat / 16), upperHex (c.toNat % 16)]

def escapeLine : List Char → List Char
  | [] => []
  | '"' :: rest => '\\' :: '"' :: escapeLine rest
  | '\n' :: rest => '\\' :: 'n' :: escapeLine rest
  | c :: rest => escapeChar c ++ escapeLine rest

/-- On several lines only every third of adjacent quotes is escaped; `run` quotes stand right before. -/
def escapeLines (run : Nat) : List Char → List Char
  | [] => []
  | '"' :: rest =>
    if run = 2 then '\\' :: '"' :: escapeLines 0 rest else '"' :: escapeLines (run + 1) rest
  | '\n' :: rest => '\n' :: escapeLines 0 rest
  | c :: rest => escapeChar c ++ escapeLines 0 rest

def tripled (q : Char) (lineFeed : Bool) (body : List Char) : List Char :=
  [q, q, q] ++ (if lineFeed then ['\n'] else []) ++ body ++ [q, q, q]

def writeText (s : String) : List Char :=
  let cs := s.toList
  let t := traits cs
  match notationFor t with
  | .basic => '"' :: escapeLine cs ++ ['"']
  | .literal => '\'' :: cs ++ ['\'']
  | .basicLines => tripled '"' t.lineFeed (escapeLines 0 cs)
  | .literalLines => tripled '\'' t.lineFeed cs

/-- A code point of `width` hexadecimal digits. -/
def codePoint? (width : Nat) (cs : List Char) : Option (Char × List Char) :=
  let ds := cs.take width
  if ds.length < width then none
  else do
    let n ← ds.foldlM (fun n d => (hexValue? d).map fun v => 16 * n + v) 0
    let c ← Text.scalar? 0 n
    some (c, cs.drop width)

/-- What follows a backslash. -/
def escape? : Scan Char
  | '"' :: rest => some ('"', rest)
  | '\\' :: rest => some ('\\', rest)
  | 'b' :: rest => some ('\x08', rest)
  | 't' :: rest => some ('\t', rest)
  | 'n' :: rest => some ('\n', rest)
  | 'f' :: rest => some ('\x0c', rest)
  | 'r' :: rest => some ('\r', rest)
  | 'u' :: rest => codePoint? 4 rest
  | 'U' :: rest => codePoint? 8 rest
  | _ => none

/-- The text behind a backslash that ends its line. -/
def continuation? (cs : List Char) : Option (List Char) :=
  match skipBlanks cs with
  | '\n' :: rest => some (rest.dropWhile fun c => isBlank c || c = '\n')
  | _ => none

theorem codePoint?_length {width : Nat} {cs rest : List Char} {c : Char}
    (h : codePoint? width cs = some (c, rest)) : rest.length ≤ cs.length := by
  unfold codePoint? at h
  dsimp only at h
  split at h
  · cases h
  · obtain ⟨n, _, h⟩ := Option.bind_eq_some_iff.1 h
    obtain ⟨d, _, h⟩ := Option.bind_eq_some_iff.1 h
    cases h
    simp

theorem escape?_length {cs rest : List Char} {c : Char} (h : escape? cs = some (c, rest)) :
    rest.length < cs.length := by
  unfold escape? at h
  split at h
  case h_8 | h_9 => exact Nat.lt_succ_of_le (codePoint?_length h)
  case h_10 => cases h
  all_goals cases h; simp

theorem length_dropWhile_le (p : Char → Bool) (cs : List Char) :
    (cs.dropWhile p).length ≤ cs.length := (List.dropWhile_sublist p).length_le

theorem continuation?_length {cs rest : List Char} (h : continuation? cs = some rest) :
    rest.length < cs.length := by
  have hb : (skipBlanks cs).length ≤ cs.length := length_dropWhile_le _ _
  unfold continuation? at h
  split at h
  · rename_i r he
    cases h
    rw [he] at hb
    exact Nat.lt_of_le_of_lt (length_dropWhile_le _ _) hb
  · cases h

def basicBody (cs : List Char) : Option (List Char × List Char) :=
  match cs with
  | [] => none
  | '"' :: rest => some ([], rest)
  | '\\' :: rest =>
    match _h : escape? rest with
    | none => none
    | some (c, rest') => (basicBody rest').map fun (s, r) => (c :: s, r)
  | c :: rest => if isPlain c then (basicBody rest).map fun (s, r) => (c :: s, r) else none
termination_by cs.length
decreasing_by
  · exact Nat.lt_succ_of_lt (escape?_length (by assumption))
  · exact Nat.lt_succ_self _

/-- Up to two quotes may stand before the three that close a string on several lines. -/
def closing (q : Char) (rest : List Char) : List Char × List Char :=
  let extra := (rest.take 2).takeWhile (· = q)
  (extra, rest.drop extra.length)

def basicLinesBody (cs : List Char) : Option (List Char × List Char) :=
  match cs with
  | [] => none
  | '"' :: '"' :: '"' :: rest => some (closing '"' rest)
  | '\\' :: rest =>
    match _h : continuation? rest with
    | some rest' => basicLinesBody rest'
    | none =>
      match _h : escape? rest with
      | none => none
      | some (c, rest') => (basicLinesBody rest').map fun (s, r) => (c :: s, r)
  | c :: rest =>
    if isPlain c || c = '\n' then (basicLinesBody rest).map fun (s, r) => (c :: s, r) else none
termination_by cs.length
decreasing_by
  · exact Nat.lt_succ_of_lt (continuation?_length (by assumption))
  · exact Nat.lt_succ_of_lt (escape?_length (by assumption))
  · exact Nat.lt_succ_self _

def literalBody : Scan (List Char)
  | [] => none
  | '\'' :: rest => some ([], rest)
  | c :: rest => if isPlain c then (literalBody rest).map fun (s, r) => (c :: s, r) else none

def literalLinesBody : Scan (List Char)
  | [] => none
  | '\'' :: '\'' :: '\'' :: rest => some (closing '\'' rest)
  | c :: rest =>
    if isPlain c || c = '\n' then (literalLinesBody rest).map fun (s, r) => (c :: s, r) else none

def dropBreak : List Char → List Char
  | '\n' :: rest => rest
  | cs => cs

/-- A string on one line. -/
def line? : Scan String
  | '"' :: rest => (basicBody rest).map fun (s, r) => (String.ofList s, r)
  | '\'' :: rest => (literalBody rest).map fun (s, r) => (String.ofList s, r)
  | _ => none

def text? : Scan String
  | '"' :: '"' :: '"' :: rest =>
    (basicLinesBody (dropBreak rest)).map fun (s, r) => (String.ofList s, r)
  | '\'' :: '\'' :: '\'' :: rest =>
    (literalLinesBody (dropBreak rest)).map fun (s, r) => (String.ofList s, r)
  | cs => line? cs

end TraceTally.Toml
