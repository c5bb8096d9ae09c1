import TraceTally.Binary64.Shortest

/-!
# Layouts of a double as text

The digits are always the shortest that read back; a layout says how they are set: when an exponent
is used, how it is marked, and whether a whole number keeps a fractional part.
-/

namespace TraceTally.Binary64

structure Layout where
  /-- Powers of ten of the leading digit that are written without an exponent. -/
  positional : Int → Bool
  /-- Whether a whole number is written with `.0`. -/
  keepsFraction : Bool
  /-- What stands between the digits and a non-negative exponent. -/
  exponentMark : String
  notANumber : String
  infinite : String

/-- `digits` with the point after the digit of weight `10 ^ 0`, the first having weight `10 ^ p`. -/
def placePoint (p : Int) (digits : List Char) : List Char × List Char :=
  if p < 0 then (['0'], List.replicate ((-p).toNat - 1) '0' ++ digits)
  else
    let whole := p.toNat + 1
    (digits.take whole ++ List.replicate (whole - digits.length) '0', digits.drop whole)

def Layout.finite (l : Layout) (d : Decimal) : List Char :=
  let ds := Text.digits d.significand
  let p : Int := if d.significand = 0 then 0 else d.exponent + ds.length - 1
  let decimals (fraction : List Char) : List Char :=
    if fraction.isEmpty then (if l.keepsFraction then ['.', '0'] else []) else '.' :: fraction
  if l.positional p then
    let (whole, fraction) := placePoint p ds
    whole ++ decimals fraction
  else
    let mantissa := match ds with
      | [d] => [d]
      | d :: rest => d :: '.' :: rest
      | [] => []
    mantissa ++ (if 0 ≤ p then l.exponentMark.toList else ['e']) ++ Text.intDigits p

def Layout.write (l : Layout) (x : Binary64) : List Char :=
  if x.isNaN then l.notANumber.toList
  else
    let sign := if x.isNegative then ['-'] else []
    sign ++ if x.isInfinite then l.infinite.toList else l.finite x.shortest

/-- No exponent ever, and no fractional part on whole numbers. -/
def Layout.plain : Layout :=
  { positional := fun _ => true, keepsFraction := false, exponentMark := "e"
    notANumber := "NaN", infinite := "inf" }

def plain (x : Binary64) : String := String.ofList (Layout.plain.write x)

end TraceTally.Binary64
