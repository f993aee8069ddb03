import Frontend.Double.Basic

-- From decimal text to the nearest floating-point number.  The text is first read as an exact fraction; one
-- rounding then gives the number, a half going to the even neighbour.

namespace Frontend.Double

-- `num / den` rounded to an integer, a half going to the even one.
def roundQuotient (num den : Nat) : Nat :=
  let q := num / den
  let r := num % den
  if 2 * r < den then q
  else if den < 2 * r then q + 1
  else if q % 2 = 0 then q else q + 1

def floorLog2 (num den : Nat) : Int :=
  let top : Int := (Nat.log2 num : Int) - (Nat.log2 den : Int)
  if den * Nat.pow 2 top.toNat ≤ num * Nat.pow 2 (-top).toNat then top else top - 1

-- The magnitude nearest to `num / den`.
--
-- The fraction is rounded at the last place of its binade, or at the least place there is.  Places and
-- significands then add up to the magnitude, also where rounding reaches the next binade.
def nearestMagnitude (num den : Nat) : Nat :=
  if num = 0 then 0
  else
    let place := max (floorLog2 num den - 52) (-1074)
    let m := roundQuotient (num * Nat.pow 2 (-place).toNat) (den * Nat.pow 2 place.toNat)
    min ((place + 1074).toNat * Nat.pow 2 52 + m) infiniteMagnitude

-- The magnitude nearest to `coefficient * 10 ^ exponent`, where the coefficient has at most `digits`
-- digits.  Far outside the range of the format the powers of ten are not computed.
def magnitudeOfDecimal (coefficient digits : Nat) (exponent : Int) : Nat :=
  if coefficient = 0 then 0
  else if exponent > 310 then infiniteMagnitude
  else if exponent + digits < -330 then 0
  else nearestMagnitude (coefficient * Nat.pow 10 exponent.toNat) (Nat.pow 10 (-exponent).toNat)

def digitsValue (digits : List Char) : Nat :=
  digits.foldl (fun n c => 10 * n + (c.toNat - '0'.toNat)) 0

def ofDigits (whole fraction : List Char) : Double :=
  let digits := whole ++ fraction
  let exponent : Int := -(fraction.length : Int)
  ofMagnitude false (magnitudeOfDecimal (digitsValue digits) digits.length exponent)

-- A run of digits with an optional sign, as it stands after an exponent mark.
def readExponent (cs : List Char) : Option Int :=
  let (negative, digits) :=
    match cs with
    | '-' :: ds => (true, ds)
    | '+' :: ds => (false, ds)
    | ds => (false, ds)
  if digits ≠ [] ∧ digits.all Char.isDigit then
    let n : Int := digitsValue digits
    some (if negative then -n else n)
  else none

-- The magnitude of an unsigned decimal: digits with at most one point among or around them, and an
-- optional exponent.
def readMagnitude (cs : List Char) : Option Nat :=
  let whole := cs.takeWhile Char.isDigit
  let afterWhole := cs.dropWhile Char.isDigit
  let (fraction, afterFraction) :=
    match afterWhole with
    | '.' :: ds => (ds.takeWhile Char.isDigit, ds.dropWhile Char.isDigit)
    | ds => ([], ds)
  let digits := whole ++ fraction
  if digits = [] then none
  else
    let scaled (exponent : Int) :=
      magnitudeOfDecimal (digitsValue digits) digits.length (exponent - fraction.length)
    match afterFraction with
    | [] => some (scaled 0)
    | c :: ds => if c = 'e' ∨ c = 'E' then (readExponent ds).map scaled else none

def readSpecial (cs : List Char) : Option Nat :=
  match String.ofList (cs.map Char.toLower) with
  | "inf" => some infiniteMagnitude
  | "infinity" => some infiniteMagnitude
  | "nan" => some quietNaN
  | _ => none

-- The number that `text` writes: an optional sign, then a decimal or a special value.
def ofText? (text : String) : Option Double :=
  let (negative, cs) :=
    match text.toList with
    | '-' :: cs => (true, cs)
    | '+' :: cs => (false, cs)
    | cs => (false, cs)
  ((readSpecial cs).orElse fun _ => readMagnitude cs).map (ofMagnitude negative)

end Frontend.Double
