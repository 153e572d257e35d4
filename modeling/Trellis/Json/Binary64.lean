/-!
# Json — double-precision numbers

A finite double is `mantissa * 2 ^ exponent` with a sign, in the one form in
which the mantissa has 53 bits unless the exponent is the least one. All
operations round an exact quotient of natural numbers to the nearest double,
a tie to the even mantissa, and answer nothing beyond the largest one.
-/

namespace Trellis

namespace Json

/-- A finite double-precision number. -/
structure Binary64 where
  /-- Whether the number carries a minus sign, zero included. -/
  negative : Bool
  /-- The digits, below `2 ^ 53`. -/
  mantissa : Nat
  /-- The power of two, between `-1074` and `971`. -/
  exponent : Int
  deriving DecidableEq, Repr, Inhabited

namespace Binary64

/-- The least exponent. -/
def minExponent : Int := -1074

/-- The greatest exponent. -/
def maxExponent : Int := 971

/-- Two to the fifty-second power, the least mantissa of full size. -/
def fullMantissa : Nat := 0x10000000000000

/-- Zero, without a sign. -/
def zero : Binary64 := ⟨false, 0, minExponent⟩

/-- Whether the number is zero of either sign. -/
def isZero (x : Binary64) : Bool :=
  x.mantissa == 0

/-- The number with the opposite sign. -/
def neg (x : Binary64) : Binary64 :=
  { x with negative := !x.negative }

/-- A quotient rounded to the nearest natural number, a tie to the even one. -/
def roundedQuotient (num den : Nat) : Nat :=
  let q := num / den
  let twice := 2 * (num % den)
  if twice < den then q
  else if den < twice then q + 1
  else if q % 2 = 0 then q else q + 1

/-- The double nearest to `num / den * 2 ^ scale`, for a positive `den`. -/
def nearest? (num den : Nat) (scale : Int) : Option Binary64 :=
  if num = 0 then some zero
  else
    let size : Int := (num.log2 : Int) - den.log2 + scale
    let quotient (e : Int) : Nat × Nat :=
      let shift := scale - e
      if 0 ≤ shift then (num * Nat.pow 2 shift.toNat, den)
      else (num, den * Nat.pow 2 (-shift).toNat)
    let low := max (size - 53) minExponent
    let first := quotient low
    let e := if 2 * fullMantissa ≤ first.1 / first.2 then low + 1 else low
    let exact := quotient e
    let m := roundedQuotient exact.1 exact.2
    let (m, e) := if m = 2 * fullMantissa then (fullMantissa, e + 1) else (m, e)
    if maxExponent < e then none else some ⟨false, m, e⟩

/-- The double nearest to a natural number. -/
def ofNat? (n : Nat) : Option Binary64 :=
  nearest? n 1 0

/-- The product of two nonnegative doubles. -/
def mul? (x y : Binary64) : Option Binary64 :=
  nearest? (x.mantissa * y.mantissa) 1 (x.exponent + y.exponent)

/-- The quotient of two nonnegative doubles, of which the second one is not
zero. -/
def div? (x y : Binary64) : Option Binary64 :=
  nearest? x.mantissa y.mantissa (x.exponent - y.exponent)

/-- The greatest power of ten that is scaled by in one step. -/
def largestPower : Nat := 308

/-- The number divided by a power of ten. -/
def lowered? (x : Binary64) (power : Nat) : Option Binary64 :=
  (ofNat? (Nat.pow 10 power)).bind x.div?

/-- **A decimal is read by scaling.** A double below `2 ^ 64` is multiplied or
divided by the double of the power of ten. Beyond the largest such power a
large number has no value, and a small one is divided by that power first;
what is left of it two such powers down is zero. -/
def scaled? (x : Binary64) (exponent : Int) : Option Binary64 :=
  if x.isZero then some x
  else if 0 ≤ exponent then
    if largestPower < exponent.toNat then none
    else (ofNat? (Nat.pow 10 exponent.toNat)).bind x.mul?
  else
    let power := (-exponent).toNat
    if power ≤ largestPower then x.lowered? power
    else if power ≤ 2 * largestPower then
      (x.lowered? largestPower).bind (lowered? · (power - largestPower))
    else some zero

/-- The double that the digits and a power of ten stand for. -/
def ofDecimal? (digits : Nat) (exponent : Int) : Option Binary64 :=
  (ofNat? digits).bind (scaled? · exponent)

/-- Beyond so many digits before the point no decimal has a double. -/
def mostDigits : Int := 310

/-- **The double nearest to a decimal**, a whole number times a power of ten. The
smallest numbers are zero. -/
def nearestDecimal? (number : Nat) (power : Int) : Option Binary64 :=
  let digits : Int := (Nat.toDigits 10 number).length + power
  if number = 0 || digits < -mostDigits - 100 then some zero
  else if mostDigits < digits then none
  else if 0 ≤ power then nearest? (number * Nat.pow 10 power.toNat) 1 0
  else nearest? number (Nat.pow 10 (-power).toNat) 0

end Binary64

end Json

end Trellis
