import TraceTally.Binary64.Reading
import TraceTally.Text.Blank
import TraceTally.Text.Bytes
import TraceTally.Toml.Basic

/-!
# TOML numbers, dates and flags

A scalar without quotes is one word. Digits may be grouped by single underscores. Whole numbers have 64
bits, without leading zeros in decimal and without a sign in other bases; a number with a point or an
exponent is a finite double. A date and a time may also be parted by one blank.
-/

namespace TraceTally.Toml

open TraceTally.Text (digitsValue maxInt64)

def isDigit (c : Char) : Bool := (Text.digitValue? c).isSome

def isWordChar (c : Char) : Bool := c.isAlphanum || c = '_' || c = '+' || c = '-' || c = '.' || c = ':'

/-- Digits, without the underscores between them. -/
def ungroup? (isDigit : Char → Bool) (cs : List Char) : Option (List Char) :=
  let groups := Text.splitOn '_' cs
  if groups.all fun g => !g.isEmpty && g.all isDigit then some groups.flatten else none

/-- A decimal whole part: no leading zero but zero itself. -/
def whole? (cs : List Char) : Option (List Char) :=
  (ungroup? isDigit cs).filter fun ds => ds.length = 1 || ds.head? ≠ some '0'

def signed (negative : Bool) (n : Nat) : Option Value :=
  if n ≤ (if negative then maxInt64 + 1 else maxInt64) then
    some (.whole (if negative then -(n : Int) else n))
  else none

/-- The digits of a base, from zero to `base - 1`. -/
def isDigitOf (base : Nat) (c : Char) : Bool := (Text.hexValue? c).any (· < base)

def based? (base : Nat) (cs : List Char) : Option Value :=
  (ungroup? (isDigitOf base) cs).bind fun ds =>
    signed false (ds.foldl (fun n d => base * n + (Text.hexValue? d).getD 0) 0)

/-- An exponent: a sign and digits, where leading zeros are allowed. -/
def exponent? (cs : List Char) : Option Int :=
  let (negative, ds) := Binary64.splitSign cs
  (ungroup? isDigit ds).map fun ds => if negative then -(digitsValue ds : Int) else digitsValue ds

/-- The parts of a double: before the point, behind it, and the exponent. -/
def numeral? (negative : Bool) (cs : List Char) : Option Binary64.Numeral := do
  let mantissa := cs.takeWhile fun c => c ≠ 'e' && c ≠ 'E'
  let exponent ← match cs.drop mantissa.length with
    | [] => some 0
    | _ :: rest => exponent? rest
  let (whole, fraction) ← match Text.splitAt? '.' mantissa with
    | none => some (mantissa, [])
    | some (whole, fraction) => (ungroup? isDigit fraction).map fun ds => (whole, ds)
  let whole ← whole? whole
  some ⟨negative, whole, fraction, exponent⟩

def real? (negative : Bool) (cs : List Char) : Option Value :=
  match String.ofList cs with
  | "inf" => some (.real (Binary64.infinity negative))
  | "nan" => some (.real (if negative then Binary64.nan.neg else Binary64.nan))
  | _ => (numeral? negative cs).bind fun n =>
      if n.value.isFinite then some (.real n.value) else none

def number? (cs : List Char) : Option Value :=
  match cs with
  | '0' :: 'x' :: rest => based? 16 rest
  | '0' :: 'o' :: rest => based? 8 rest
  | '0' :: 'b' :: rest => based? 2 rest
  | _ =>
    let (negative, body) := Binary64.splitSign cs
    match whole? body with
    | some ds => signed negative (digitsValue ds)
    | none => real? negative body

def twoDigits? (a b : Char) (least most : Nat) : Option Nat := do
  let a ← Text.digitValue? a
  let b ← Text.digitValue? b
  if least ≤ 10 * a + b && 10 * a + b ≤ most then some (10 * a + b) else none

def monthLength (year month : Nat) : Nat :=
  if month = 2 then (if year % 4 = 0 && (year % 100 ≠ 0 || year % 400 = 0) then 29 else 28)
  else if month = 4 || month = 6 || month = 9 || month = 11 then 30 else 31

/-- A date, and what follows it. -/
def date? : Scan (List Char)
  | a :: b :: c :: d :: '-' :: e :: f :: '-' :: g :: h :: rest => do
    let century ← twoDigits? a b 0 99
    let year ← twoDigits? c d 0 99
    let month ← twoDigits? e f 1 12
    let _ ← twoDigits? g h 1 (monthLength (100 * century + year) month)
    some ([a, b, c, d, '-', e, f, '-', g, h], rest)
  | _ => none

/-- Decimals of a second, to the nanosecond, without trailing zeros. -/
def decimals (ds : List Char) : List Char :=
  let ds := ((ds.take 9).reverse.dropWhile (· = '0')).reverse
  if ds.isEmpty then [] else '.' :: ds

/-- A time of day, and what follows it. -/
def time? : Scan (List Char)
  | a :: b :: ':' :: c :: d :: ':' :: e :: f :: rest => do
    let _ ← twoDigits? a b 0 23
    let _ ← twoDigits? c d 0 59
    let _ ← twoDigits? e f 0 60
    let time := [a, b, ':', c, d, ':', e, f]
    match rest with
    | '.' :: rest =>
      let ds := rest.takeWhile isDigit
      if ds.isEmpty then none else some (time ++ decimals ds, rest.drop ds.length)
    | _ => some (time, rest)
  | _ => none

/-- The offset from universal time that may end a date with a time. -/
def offset? : List Char → Option (List Char)
  | [] => some []
  | ['Z'] | ['z'] => some ['Z']
  | [sign, a, b, ':', c, d] =>
    if sign = '+' || sign = '-' then do
      let _ ← twoDigits? a b 0 23
      let _ ← twoDigits? c d 0 59
      some [sign, a, b, ':', c, d]
    else none
  | _ => none

/-- A date, a time, or both with an optional offset. A blank between them counts as a `T`. -/
def dateTime? (cs : List Char) : Option Value :=
  match date? cs with
  | none =>
    match time? cs with
    | some (time, []) => some (.dateTime (String.ofList time))
    | _ => none
  | some (date, []) => some (.dateTime (String.ofList date))
  | some (date, mark :: rest) =>
    if mark = 'T' || mark = 't' || mark = ' ' then do
      let (time, rest) ← time? rest
      let offset ← offset? rest
      some (.dateTime (String.ofList (date ++ 'T' :: time ++ offset)))
    else none

/-- The value of a whole word. -/
def ofWord? (cs : List Char) : Option Value :=
  match String.ofList cs with
  | "true" => some (.flag true)
  | "false" => some (.flag false)
  | _ => (number? cs).orElse fun _ => dateTime? cs

/-- A date that is followed by a blank and a time is one word with it. -/
def word (cs : List Char) : List Char × List Char :=
  let first := cs.takeWhile isWordChar
  let rest := cs.drop first.length
  match date? first, rest with
  | some (_, []), ' ' :: more =>
    let second := more.takeWhile isWordChar
    if (dateTime? (first ++ ' ' :: second)).isSome then
      (first ++ ' ' :: second, more.drop second.length)
    else (first, rest)
  | _, _ => (first, rest)

def scalar? : Scan Value := fun cs =>
  let (w, rest) := word cs
  (ofWord? w).map fun v => (v, rest)

example : (number? "1_000".toList matches some (.whole 1000)) = true := by decide +kernel

example : (number? "01".toList matches none) = true := by decide +kernel

end TraceTally.Toml
