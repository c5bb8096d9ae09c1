import TraceTally.Binary64.Rounding
import TraceTally.Json.Cursor

/-!
# JSON numbers

A numeral is a whole part without leading zeros, and optional parts behind a point and an exponent
mark. A whole number that fits 64 bits is exact. Any other is a double: the digits that fit 64 bits
make a significand, which is rounded to a double and then scaled by a rounded power of ten, so the
result can miss the nearest double. Digits that do not fit count as zeros in the whole part and not at
all behind the point. A number past the largest double is refused.
-/

namespace TraceTally.Json

structure Numeral where
  negative : Bool
  whole : List Char
  fraction : Option (List Char) := none
  /-- Whether the exponent is negative, its digits, and the place where they begin. -/
  exponent : Option (Bool × List Char × Position) := none
  deriving DecidableEq, Repr

inductive Number where
  | whole (n : Int)
  | real (x : Binary64)
  deriving DecidableEq, Repr

def Number.toBinary64 : Number → Binary64
  | .whole n => Binary64.ofRatio (n < 0) n.natAbs 1
  | .real x => x

def Number.found : Number → Found
  | .whole n => .whole n
  | .real x => .real x

def isDigit (c : Char) : Bool := (Text.digitValue? c).isSome

/-- The digits at the cursor, and what follows them. -/
def takeDigits (c : Cursor) : List Char × Cursor :=
  let ds := c.rest.takeWhile isDigit
  (ds, ⟨c.rest.drop ds.length, ⟨c.position.breaks, c.position.column + ds.length⟩⟩)

/-- The whole part. `atEnd` is reported where the text ends in place of a digit. -/
def wholePart (atEnd : Cause) (c : Cursor) : Except Error (List Char × Cursor) :=
  match c.rest with
  | [] => c.failHere atEnd
  | '0' :: _ =>
    let c := c.advance
    match c.rest with
    | d :: _ => if isDigit d then c.failNext .invalidNumber else .ok (['0'], c)
    | [] => .ok (['0'], c)
  | d :: _ => if isDigit d then .ok (takeDigits c) else c.failNext .invalidNumber

/-- At least one digit. -/
def someDigits (atEnd : Cause) (c : Cursor) : Except Error (List Char × Cursor) :=
  match c.rest with
  | [] => c.failHere atEnd
  | d :: _ => if isDigit d then .ok (takeDigits c) else c.failNext .invalidNumber

def fractionPart (atEnd : Cause) (c : Cursor) : Except Error (Option (List Char) × Cursor) :=
  match c.rest with
  | '.' :: _ => (someDigits atEnd c.advance).map fun (ds, c) => (some ds, c)
  | _ => .ok (none, c)

/-- The sign of an exponent; without one it is not negative. -/
def exponentSign (c : Cursor) : Bool × Cursor :=
  match c.rest with
  | '+' :: _ => (false, c.advance)
  | '-' :: _ => (true, c.advance)
  | _ => (false, c)

def exponentPart (atEnd : Cause) (c : Cursor) :
    Except Error (Option (Bool × List Char × Position) × Cursor) :=
  let marked (c : Cursor) :=
    let (negative, c) := exponentSign c
    (someDigits atEnd c).map fun (ds, c') => (some (negative, ds, c.position), c')
  match c.rest with
  | 'e' :: _ => marked c.advance
  | 'E' :: _ => marked c.advance
  | _ => .ok (none, c)

/-- A numeral behind its sign. -/
def numeral (atEnd : Cause) (negative : Bool) (c : Cursor) : Except Error (Numeral × Cursor) := do
  let (whole, c) ← wholePart atEnd c
  let (fraction, c) ← fractionPart atEnd c
  let (exponent, c) ← exponentPart atEnd c
  .ok (⟨negative, whole, fraction, exponent⟩, c)

/-- The digits appended to `n` while the result fits 64 bits, and those left over. -/
def accumulate (n : Nat) : List Char → Nat × List Char
  | [] => (n, [])
  | d :: rest =>
    let m := 10 * n + (Text.digitValue? d).getD 0
    if m ≤ Text.maxNat64 then accumulate m rest else (n, d :: rest)

def largestExponent : Nat := 2 ^ 31 - 1

/-- `x * 10 ^ e` by rounded powers of ten; nothing when the result is infinite. -/
def scale (x : Binary64) (e : Int) : Option Binary64 :=
  if x.isZero then some x
  else if 308 < e then none
  else if 0 ≤ e then
    let y := x.mul (Binary64.ofNat (10 ^ e.toNat))
    if y.isInfinite then none else some y
  else if -308 ≤ e then some (x.div (Binary64.ofNat (10 ^ (-e).toNat)))
  else scale (x.div (Binary64.ofNat (10 ^ 308))) (e + 308)
termination_by (-e).toNat
decreasing_by omega

/-- The significand of a numeral and the power of ten that goes with it, its own exponent apart. -/
def Numeral.significand (n : Numeral) : Nat × Int :=
  let (m, dropped) := accumulate 0 n.whole
  let fraction := n.fraction.getD []
  let (m', ignored) := accumulate m fraction
  (m', dropped.length - (fraction.length - ignored.length : Nat))

/-- Where an exponent has grown too large, counted in digits. -/
def exponentLimit (n count : Nat) : List Char → Nat
  | [] => count
  | d :: rest =>
    let m := 10 * n + (Text.digitValue? d).getD 0
    if m ≤ largestExponent then exponentLimit m (count + 1) rest else count + 1

def Numeral.isWhole (n : Numeral) : Bool := n.fraction.isNone && n.exponent.isNone

/-- The value of a numeral that ends at `c`. -/
def Numeral.value (n : Numeral) (c : Cursor) : Except Error Number :=
  let (m, shift) := n.significand
  let signed (x : Binary64) : Number := .real (if n.negative then x.neg else x)
  let scaled (e : Int) : Except Error Number :=
    match scale (Binary64.ofNat m) e with
    | some x => .ok (signed x)
    | none => c.failHere .numberOutOfRange
  if n.isWhole && (accumulate 0 n.whole).2.isEmpty then
    if !n.negative then .ok (.whole m)
    else if 0 < m && m ≤ 2 ^ 63 then .ok (.whole (-(m : Int)))
    else .ok (signed (Binary64.ofNat m))
  else
    match n.exponent with
    | none => scaled shift
    | some (negative, ds, start) =>
      let e := Text.digitsValue ds
      if e ≤ largestExponent then scaled (shift + if negative then -(e : Int) else e)
      else if m ≠ 0 && !negative then
        .error ⟨.numberOutOfRange, ⟨start.breaks, start.column + exponentLimit 0 0 ds⟩⟩
      else .ok (signed (Binary64.zero false))

/-- A number behind its sign. -/
def readNumber (negative : Bool) (c : Cursor) : Except Error (Number × Cursor) := do
  let (n, c) ← numeral (.unfinished .value) negative c
  let x ← n.value c
  .ok (x, c)

/-- A number that is only passed over: its size does not matter. -/
def skipNumber (c : Cursor) : Except Error Cursor :=
  (numeral .invalidNumber false c).map Prod.snd

end TraceTally.Json
