import Frontend.Double.Basic

-- The shortest decimal text of a floating-point number: of all decimals that round to the number, those with
-- the fewest digits, and of these the nearest.  The decimals that round to a number fill an interval around
-- it.  The grids of the multiples of a power of ten are tried from the coarsest one on; the first grid with a
-- point in the interval gives the digits, because a point with fewer digits would lie on a coarser grid.

namespace Frontend.Double

structure Decimal where
  coefficient : Nat
  exponent : Int
deriving DecidableEq

-- An interval of positive rationals in units of `2 ^ unit`, with the number it belongs to.  Its ends
-- belong to it when `closed` holds.
structure Rounding where
  low : Nat
  middle : Nat
  high : Nat
  unit : Int
  closed : Bool

-- The rationals that round to a positive finite number: up to half a place away, but only a quarter of
-- a place downwards where the places below are half as wide.  A half goes to the even neighbour, so
-- the ends round to the number when its significand is even.
def rounding (d : Double) : Rounding :=
  let m := d.significand
  let narrow := decide (m = Nat.pow 2 52) && decide (-1074 < d.exponent)
  { low := if narrow then 4 * m - 1 else 4 * m - 2
    middle := 4 * m
    high := 4 * m + 2
    unit := d.exponent - 2
    closed := m % 2 == 0 }

namespace Rounding

-- Whether `k` steps of size `step` lie in the interval, whose units have size `size`.
def admits (r : Rounding) (step size k : Nat) : Bool :=
  if r.closed then decide (r.low * size ≤ k * step) && decide (k * step ≤ r.high * size)
  else decide (r.low * size < k * step) && decide (k * step < r.high * size)

-- `10 ^ grid` and `2 ^ unit` are both scaled to integers, by the same factor, so that multiples of the one
-- can be compared with multiples of the other.

-- The scaled size of a step of `10 ^ grid`.
def stepSize (r : Rounding) (grid : Int) : Nat := Nat.pow 10 grid.toNat * Nat.pow 2 (-r.unit).toNat

-- The scaled size of a unit of the interval.
def unitSize (r : Rounding) (grid : Int) : Nat := Nat.pow 2 r.unit.toNat * Nat.pow 10 (-grid).toNat

-- The multiple of `10 ^ grid` in the interval that is nearest to the middle, if any is.  Only the two
-- neighbours of the middle have to be tried; of two equally near ones the greater is taken.
def onGrid? (r : Rounding) (grid : Int) : Option Nat :=
  let step := r.stepSize grid
  let size := r.unitSize grid
  let below := r.middle * size / step
  let remainder := r.middle * size % step
  let above := if remainder = 0 then below else below + 1
  match r.admits step size below, r.admits step size above with
  | true, true => some (if 2 * remainder < step then below else above)
  | true, false => some below
  | false, true => some above
  | false, false => none

def search (r : Rounding) : Nat → Int → Decimal
  -- A grid this fine is never needed: seventeen digits already tell all numbers apart.
  | 0, grid => ⟨r.middle * r.unitSize grid / r.stepSize grid, grid⟩
  | fuel + 1, grid =>
    match r.onGrid? grid with
    | some k => ⟨k, grid⟩
    | none => r.search fuel (grid - 1)

end Rounding

-- A power of ten above the number: 0.30103 is a little more than the decimal logarithm of two.
def coarsestGrid (d : Double) : Int :=
  Int.fdiv (((Nat.log2 d.significand : Nat) + d.exponent + 1) * 30103) 100000 + 1

-- The shortest decimal of a positive finite number.  Seventeen digits always suffice.
def shortest (d : Double) : Decimal := d.rounding.search 20 d.coarsestGrid

structure Layout where
  -- From this power of ten on, an exponent is written.
  upper : Int
  -- Below this power of ten, an exponent is written.
  lower : Int
  exponentMark : String
  infinite : String
  notANumber : String

-- Whole numbers keep a zero after the point, and exponents appear from `1e16` on and below `1e-4`.
def layout : Layout :=
  { upper := 16, lower := -4, exponentMark := "e", infinite := "inf", notANumber := "NaN" }

-- The digits of a decimal in the positional or the exponent form that `layout` lays down.
def Decimal.text (layout : Layout) (x : Decimal) : String :=
  let digits := (toString x.coefficient).toList
  let leading : Int := digits.length - 1 + x.exponent
  if layout.upper ≤ leading ∨ leading < layout.lower then
    let fraction := digits.drop 1
    String.ofList (digits.take 1) ++ (if fraction = [] then "" else "." ++ String.ofList fraction)
      ++ layout.exponentMark ++ toString leading
  else if 0 ≤ x.exponent then
    String.ofList (digits ++ List.replicate x.exponent.toNat '0') ++ ".0"
  else if 0 ≤ leading then
    String.ofList (digits.take (leading.toNat + 1)) ++ "."
      ++ String.ofList (digits.drop (leading.toNat + 1))
  else
    "0." ++ String.ofList (List.replicate (-leading - 1).toNat '0' ++ digits)

def text (d : Double) : String :=
  if d.isNaN then layout.notANumber
  else
    let sign := if d.isNegative then "-" else ""
    if d.isInfinite then sign ++ layout.infinite
    else if d.isZero then sign ++ "0.0"
    else sign ++ d.shortest.text layout

end Frontend.Double
