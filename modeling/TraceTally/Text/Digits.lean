import TraceTally.Powers

/-!
# Decimal digits of whole numbers

Writing is without leading zeros. Reading takes an optional sign and ASCII digits, goes from left
to right, and reports the first thing that is wrong.
-/

namespace TraceTally.Text

def digitChar (d : Nat) : Char := Char.ofNat (48 + d)

def digitValue? (c : Char) : Option Nat :=
  if '0' ≤ c && c ≤ '9' then some (c.toNat - 48) else none

def digits (n : Nat) : List Char :=
  if n < 10 then [digitChar n] else digits (n / 10) ++ [digitChar (n % 10)]

/-- The number written by a list of digits; anything else counts as zero. -/
def digitsValue (cs : List Char) : Nat :=
  cs.foldl (fun n c => 10 * n + (digitValue? c).getD 0) 0

def intDigits (n : Int) : List Char :=
  if n < 0 then '-' :: digits n.natAbs else digits n.natAbs

inductive NumberError where
  | empty
  | invalidDigit
  | tooLarge
  | tooSmall
  deriving DecidableEq, Repr

def NumberError.message : NumberError → String
  | .empty => "cannot parse integer from empty string"
  | .invalidDigit => "invalid digit found in string"
  | .tooLarge => "number too large to fit in target type"
  | .tooSmall => "number too small to fit in target type"

/-- Digits appended to the number read so far, which may not pass `limit`. -/
def readDigits (limit : Nat) (overflow : NumberError) : Nat → List Char → Except NumberError Nat
  | n, [] => .ok n
  | n, c :: rest =>
    match digitValue? c with
    | none => .error .invalidDigit
    | some d => if 10 * n + d ≤ limit then readDigits limit overflow (10 * n + d) rest else .error overflow

/-- A number up to `limit`, with an optional plus sign. -/
def readNat (limit : Nat) : List Char → Except NumberError Nat
  | [] => .error .empty
  | ['+'] => .error .invalidDigit
  | '+' :: rest => readDigits limit .tooLarge 0 rest
  | cs => readDigits limit .tooLarge 0 cs

/-- A number from `-(limit + 1)` to `limit`, with an optional sign. -/
def readInt (limit : Nat) : List Char → Except NumberError Int
  | [] => .error .empty
  | ['+'] | ['-'] => .error .invalidDigit
  | '-' :: rest => (readDigits (limit + 1) .tooSmall 0 rest).map fun n => -(n : Int)
  | '+' :: rest => (readDigits limit .tooLarge 0 rest).map Int.ofNat
  | cs => (readDigits limit .tooLarge 0 cs).map Int.ofNat

/-- The largest number of 64 bits without a sign. -/
def maxNat64 : Nat := 2 ^ 64 - 1

/-- The largest number of 64 bits with a sign. -/
def maxInt64 : Nat := 2 ^ 63 - 1

end TraceTally.Text
