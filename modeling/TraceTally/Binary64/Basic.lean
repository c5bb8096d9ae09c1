import TraceTally.Powers

/-!
# Double precision values, by their bits

A value is its 64 bits, so two values are told apart exactly, NaN payloads and the sign of zero
included. A finite value is `(-1) ^ sign * mantissa * 2 ^ exponent`. Sums, products and quotients
are the processor's.
-/

namespace TraceTally

structure Binary64 where
  bits : UInt64
  deriving DecidableEq, Inhabited, Repr

namespace Binary64

def ofFloat (x : Float) : Binary64 := ⟨x.toBits⟩

def toFloat (x : Binary64) : Float := Float.ofBits x.bits

def add (x y : Binary64) : Binary64 := ofFloat (x.toFloat + y.toFloat)

def mul (x y : Binary64) : Binary64 := ofFloat (x.toFloat * y.toFloat)

def div (x y : Binary64) : Binary64 := ofFloat (x.toFloat / y.toFloat)

instance : Add Binary64 := ⟨add⟩

def isNegative (x : Binary64) : Bool := 2 ^ 63 ≤ x.bits.toNat

/-- The bits without the sign. -/
def magnitude (x : Binary64) : Nat := x.bits.toNat % 2 ^ 63

def fraction (x : Binary64) : Nat := x.magnitude % 2 ^ 52

def biasedExponent (x : Binary64) : Nat := x.magnitude / 2 ^ 52

def isFinite (x : Binary64) : Bool := x.biasedExponent < 2047

def isInfinite (x : Binary64) : Bool := x.magnitude = 2047 * 2 ^ 52

def isNaN (x : Binary64) : Bool := 2047 * 2 ^ 52 < x.magnitude

def isZero (x : Binary64) : Bool := x.magnitude = 0

/-- A subnormal value has no hidden leading bit. -/
def mantissa (x : Binary64) : Nat :=
  if x.biasedExponent = 0 then x.fraction else x.fraction + 2 ^ 52

def exponent (x : Binary64) : Int := (max x.biasedExponent 1 : Nat) - 1075

def ofSignMagnitude (negative : Bool) (magnitude : Nat) : Binary64 :=
  ⟨UInt64.ofNat (if negative then magnitude + 2 ^ 63 else magnitude)⟩

def zero (negative : Bool) : Binary64 := ofSignMagnitude negative 0

def infinity (negative : Bool) : Binary64 := ofSignMagnitude negative (2047 * 2 ^ 52)

/-- The quiet NaN without payload. -/
def nan : Binary64 := ofSignMagnitude false (4095 * 2 ^ 51)

def neg (x : Binary64) : Binary64 := ofSignMagnitude (!x.isNegative) x.magnitude

/-- A total order on all bit patterns: negative NaNs, the reals with `-0` below `+0`, NaNs. -/
def totalOrderKey (x : Binary64) : Int :=
  if x.isNegative then -(x.magnitude : Int) - 1 else x.magnitude

instance : Zero Binary64 := ⟨zero false⟩

example : (zero false) ≠ (zero true) := by decide

example : (⟨0x3FF8000000000000⟩ : Binary64).mantissa = 3 * 2 ^ 51 ∧
    (⟨0x3FF8000000000000⟩ : Binary64).exponent = -52 := by decide

example : nan.isNaN ∧ nan.bits = 0x7FF8000000000000 := by decide

end Binary64

end TraceTally
