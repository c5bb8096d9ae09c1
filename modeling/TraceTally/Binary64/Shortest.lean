import TraceTally.Binary64.Basic
import TraceTally.Text.Digits

/-!
# The shortest decimal that reads back

Among the decimals that round to a given finite double, those with the fewest digits, and of these
the nearest to the double. All tests are exact on naturals: value and bounds of the rounding
interval are brought to one denominator.
-/

namespace TraceTally.Binary64

/-- `significand * 10 ^ exponent`. -/
structure Decimal where
  significand : Nat
  exponent : Int
  deriving DecidableEq, Repr

/-- A positive value with the two ends of the interval that rounds to it, in quarters of the unit of
its last place, over the denominator `den`. -/
structure Interval where
  low : Nat
  value : Nat
  high : Nat
  den : Nat
  closed : Bool

/-- Below a power of two the next double is only half as far away as above it. -/
def interval (x : Binary64) : Interval :=
  let m := 4 * x.mantissa
  let below := if x.fraction = 0 && 1 < x.biasedExponent then 1 else 2
  let e := x.exponent - 2
  let scale := 2 ^ e.toNat
  { low := (m - below) * scale, value := m * scale, high := (m + 2) * scale,
    den := 2 ^ (-e).toNat, closed := x.mantissa % 2 = 0 }

/-- Whether `d * num' / den'` lies in the interval. -/
def Interval.contains (i : Interval) (num den : Nat) : Bool :=
  let n := num * i.den
  if i.closed then i.low * den ≤ n && n ≤ i.high * den else i.low * den < n && n < i.high * den

/-- The exponent `p` with `10 ^ p ≤ num / den < 10 ^ (p + 1)`. -/
def decade (num den : Nat) : Int :=
  let guess := ((num.log2 : Int) - den.log2) * 30103 / 100000
  let reaches (p : Int) : Bool := den * 10 ^ p.toNat ≤ num * 10 ^ (-p).toNat
  if reaches (guess + 1) then guess + 1 else if reaches guess then guess else guess - 1

/-- The nearest of the value's two neighbours among the multiples of `10 ^ e`, if it rounds back. -/
def Interval.onGrid? (i : Interval) (e : Int) : Option Decimal :=
  let up := 10 ^ e.toNat
  let down := 10 ^ (-e).toNat
  let num := i.value * down
  let den := i.den * up
  let d := num / den
  let below := i.contains (d * up) down
  let above := i.contains ((d + 1) * up) down
  let near := compare (2 * (num % den)) den
  let preferBelow := near = .lt || (near = .eq && d % 2 = 0)
  if below && (preferBelow || !above) then some ⟨d, e⟩
  else if above then some ⟨d + 1, e⟩
  else none

/-- The first grid with a hit, from the multiples of `10 ^ (decade - 17 + count)` to finer ones. -/
def Interval.firstHit (i : Interval) (decade : Int) : Nat → Decimal
  | 0 => ⟨(i.value * 10 ^ (16 - decade).toNat) / (i.den * 10 ^ (decade - 16).toNat), decade - 16⟩
  | count + 1 =>
    match i.onGrid? (decade - 16 + count) with
    | some d => d
    | none => firstHit i decade count

/-- Significant digits without trailing zeros: a coarser grid would have been hit first. The search
starts at the next power of ten above the value, which is its text if it lies close enough below. -/
def shortest (x : Binary64) : Decimal :=
  if x.isZero then ⟨0, 0⟩ else x.interval.firstHit (decade x.interval.value x.interval.den) 18

/-- The double nearest to a millionth lies just below it. -/
example : (⟨0x3EB0C6F7A0B5ED8D⟩ : Binary64).shortest = ⟨1, -6⟩ := by decide +kernel

example : (⟨1⟩ : Binary64).shortest = ⟨5, -324⟩ ∧ (⟨2⟩ : Binary64).shortest = ⟨1, -323⟩ := by
  decide +kernel

end TraceTally.Binary64
