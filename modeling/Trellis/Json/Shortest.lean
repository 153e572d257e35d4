import Trellis.Json.Binary64
/-!
# Json — the shortest decimal of a double

The text of a double has the fewest decimal digits that read back as it, and
of those the nearest. The search goes through the decimal grids from coarse to
fine and tests the two points of a grid next to the number in exact arithmetic.
-/

namespace Trellis

namespace Json

namespace Binary64

/-- A positive decimal `digits * 10 ^ exponent`. -/
structure Decimal where
  /-- The significant digits. -/
  digits : Nat
  /-- The power of ten. -/
  exponent : Int
  deriving DecidableEq, Repr

/-- A number and a decimal grid over one denominator. -/
structure Grid where
  /-- The number. -/
  value : Nat
  /-- Distance to the lower end of the numbers that round to it. -/
  below : Nat
  /-- Distance to the upper end. -/
  above : Nat
  /-- Distance of two grid points. -/
  step : Nat

/-- The number and its neighbourhood on the grid of multiples of
`10 ^ exponent`. -/
def grid (x : Binary64) (exponent : Int) : Grid :=
  let narrow := x.mantissa = fullMantissa ∧ minExponent < x.exponent
  let twos (k : Int) : Nat := Nat.pow 2 k.toNat
  let tens (k : Int) : Nat := Nat.pow 10 k.toNat
  let unit := 4 * tens (-exponent) * twos x.exponent
  { value := x.mantissa * unit
    below := if narrow then unit / 4 else unit / 2
    above := unit / 2
    step := 4 * tens exponent * twos (-x.exponent) }

/-- Whether the grid point with a given number of steps reads back: it lies
in the interval around the value, whose ends belong to it when the mantissa
is even. -/
def Grid.holds (g : Grid) (even : Bool) (steps : Nat) : Bool :=
  let point := steps * g.step
  if point < g.value then
    let gap := g.value - point
    gap < g.below || (even && gap == g.below)
  else
    let gap := point - g.value
    gap < g.above || (even && gap == g.above)

/-- The grid point that reads back and lies nearest to the value, a tie going
to the even one. -/
def Grid.nearest? (g : Grid) (even : Bool) : Option Nat :=
  let lower := g.value / g.step
  let upper := lower + 1
  match g.holds even lower && lower != 0, g.holds even upper with
  | true, true =>
    let down := g.value - lower * g.step
    let up := upper * g.step - g.value
    if down < up then some lower
    else if up < down then some upper
    else if lower % 2 = 0 then some lower else some upper
  | true, false => some lower
  | false, true => some upper
  | false, false => none

/-- The first decimal found on the grids from `10 ^ exponent` down. -/
def search (x : Binary64) : Nat → Int → Option Decimal
  | 0, _ => none
  | tries + 1, exponent =>
    match (x.grid exponent).nearest? (x.mantissa % 2 == 0) with
    | some steps => some ⟨steps, exponent⟩
    | none => search x tries (exponent - 1)

/-- A power of ten above every double of the same size. -/
def coarsest (x : Binary64) : Int :=
  ((x.mantissa.log2 : Int) + x.exponent) * 30103 / 100000 + 2

/-- The shortest decimal that reads back as a nonzero double. -/
def shortest (x : Binary64) : Decimal :=
  (search x 24 x.coarsest).getD ⟨x.mantissa, 0⟩

end Binary64

/-- How a decimal is laid out. -/
structure NumberLayout where
  /-- The least position of the point, counted from the first digit, that is
  written without an exponent, and the greatest one. -/
  leastPoint : Int
  /-- The greatest position of the point without an exponent. -/
  greatestPoint : Int
  /-- The sign of a positive exponent. -/
  plus : String

/-- **The layout of doubles.** Numbers from `1e-5` up to `1e16` are written
without an exponent and always with a decimal; others have one, signed. -/
def doubleLayout : NumberLayout := ⟨-4, 16, "+"⟩

/-- A decimal in the given layout. -/
def NumberLayout.render (layout : NumberLayout) (d : Binary64.Decimal) : String :=
  let digits := Nat.toDigits 10 d.digits
  let count : Int := digits.length
  let point := count + d.exponent
  if layout.leastPoint ≤ point && point ≤ layout.greatestPoint then
    if 0 ≤ d.exponent then
      String.ofList (digits ++ List.replicate d.exponent.toNat '0') ++ ".0"
    else if 0 < point then
      String.ofList (digits.take point.toNat ++ '.' :: digits.drop point.toNat)
    else String.ofList ('0' :: '.' :: List.replicate (-point).toNat '0' ++ digits)
  else
    let exponent := point - 1
    let mark := if exponent < 0 then "e-" else "e" ++ layout.plus
    let whole := String.ofList (digits.take 1)
    let decimals := String.ofList (digits.drop 1)
    let mantissa := if decimals.isEmpty then whole else whole ++ "." ++ decimals
    mantissa ++ mark ++ String.ofList (Nat.toDigits 10 exponent.natAbs)

/-- The text of a double. -/
def Binary64.text (x : Binary64) : String :=
  let sign := if x.negative then "-" else ""
  if x.isZero then sign ++ "0.0" else sign ++ doubleLayout.render x.shortest

end Json

end Trellis
