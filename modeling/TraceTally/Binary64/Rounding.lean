import TraceTally.Binary64.Basic

/-!
# Rounding to the nearest double

A fraction of whole numbers is rounded to the nearest double, a tie going to the even mantissa.
Everything is exact arithmetic on naturals, so there is one rounding only.
-/

namespace TraceTally.Binary64

/-- The whole number nearest to `num / den`, a tie going to the even one. -/
def divNearestEven (num den : Nat) : Nat :=
  let q := num / den
  match compare (2 * (num % den)) den with
  | .lt => q
  | .gt => q + 1
  | .eq => if q % 2 = 0 then q else q + 1

/-- Numerator and denominator of `num / den / 2 ^ e`. -/
def scaleDown (num den : Nat) (e : Int) : Nat × Nat :=
  if 0 ≤ e then (num, den * 2 ^ e.toNat) else (num * 2 ^ (-e).toNat, den)

/-- `num / den` to the nearest double; past the largest finite value it is infinity. -/
def ofRatio (negative : Bool) (num den : Nat) : Binary64 :=
  if num = 0 then zero negative
  else
    let e : Int := max ((num.log2 : Int) - den.log2 - 53) (-1074)
    let (n, d) := scaleDown num den e
    let e := if n / d < 2 ^ 53 then e else e + 1
    let (n, d) := scaleDown num den e
    let magnitude := (e + 1074).toNat * 2 ^ 52 + divNearestEven n d
    if magnitude < 2047 * 2 ^ 52 then ofSignMagnitude negative magnitude else infinity negative

def ofNat (n : Nat) : Binary64 := ofRatio false n 1

/-- `significand * 10 ^ e`, correctly rounded. `width` is the number of decimal digits of the
significand, which tells overflow and underflow without forming the power. -/
def ofDecimal (negative : Bool) (significand width : Nat) (e : Int) : Binary64 :=
  if significand = 0 then zero negative
  else if 400 < e + width then infinity negative
  else if e + width < -400 then zero negative
  else if 0 ≤ e then ofRatio negative (significand * 10 ^ e.toNat) 1
  else ofRatio negative significand (10 ^ (-e).toNat)

example : ofNat 1 = ⟨0x3FF0000000000000⟩ ∧ ofRatio true 5 2 = ⟨0xC004000000000000⟩ := by
  decide +kernel

/-- Between two doubles the even one wins only on the exact tie. -/
example : ofNat (2 ^ 53 + 1) = ofNat (2 ^ 53) ∧
    ofRatio false (10 * (2 ^ 53 + 1) + 1) 10 = ofNat (2 ^ 53 + 2) := by decide +kernel

end TraceTally.Binary64
