import TraceTally.Binary64.Rounding
import TraceTally.Text.Digits

/-!
# Reading a double from text

A number is an optional sign, then `inf`, `infinity` or `nan` in any case, or decimal digits with an
optional point and an optional exponent. At least one digit stands before or after the point. The
value is the nearest double.
-/

namespace TraceTally.Binary64

/-- A numeral split at its point and exponent mark. -/
structure Numeral where
  negative : Bool
  whole : List Char
  fraction : List Char
  exponent : Int

def isDigit (c : Char) : Bool := (Text.digitValue? c).isSome

/-- The digits from the first that is not zero. -/
def Numeral.significant (n : Numeral) : List Char := (n.whole ++ n.fraction).dropWhile (· = '0')

def Numeral.value (n : Numeral) : Binary64 :=
  let ds := n.significant
  ofDecimal n.negative (Text.digitsValue ds) ds.length (n.exponent - n.fraction.length)

/-- The sign of a signed text, and what follows it. -/
def splitSign : List Char → Bool × List Char
  | '-' :: rest => (true, rest)
  | '+' :: rest => (false, rest)
  | cs => (false, cs)

/-- An exponent: a sign and at least one digit, to the end. -/
def exponent? (cs : List Char) : Option Int :=
  let (negative, ds) := splitSign cs
  if ds.isEmpty || !ds.all isDigit then none
  else
    let n : Int := Text.digitsValue ds
    some (if negative then -n else n)

def numeral? (negative : Bool) (cs : List Char) : Option Numeral :=
  let whole := cs.takeWhile isDigit
  let rest := cs.dropWhile isDigit
  let (fraction, rest) := match rest with
    | '.' :: more => (more.takeWhile isDigit, more.dropWhile isDigit)
    | _ => ([], rest)
  if whole.isEmpty && fraction.isEmpty then none
  else match rest with
    | [] => some ⟨negative, whole, fraction, 0⟩
    | c :: more =>
      if c = 'e' || c = 'E' then (exponent? more).map fun e => ⟨negative, whole, fraction, e⟩
      else none

def lower (cs : List Char) : String := String.ofList (cs.map Char.toLower)

def read? (cs : List Char) : Option Binary64 :=
  let (negative, body) := splitSign cs
  match lower body with
  | "inf" | "infinity" => some (infinity negative)
  | "nan" => some (if negative then nan.neg else nan)
  | _ => (numeral? negative body).map Numeral.value

/-- Zeros in front do not count, however many they are. -/
example : read? (List.replicate 401 '0' ++ ['1']) = read? ['1'] ∧
    read? ('.' :: List.replicate 401 '0' ++ ['1']) = some (zero false) := by
  decide +kernel

end TraceTally.Binary64
