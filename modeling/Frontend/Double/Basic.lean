-- Binary floating-point numbers of 64 bits: a sign, eleven bits of exponent and fifty-two bits of fraction.
-- A number is its bit pattern; what the pattern stands for is computed exactly in `Nat`.

namespace Frontend

structure Double where
  bits : UInt64
deriving DecidableEq, Inhabited

namespace Double

def signBit : Nat := Nat.pow 2 63

-- The magnitude of the infinities; greater magnitudes are not numbers.
def infiniteMagnitude : Nat := 2047 * Nat.pow 2 52

-- The bits below the sign.  They grow with the absolute value.
def magnitude (d : Double) : Nat := d.bits.toNat % signBit

-- Whether the sign bit is set; it can be set in a zero too.
def isNegative (d : Double) : Bool := decide (signBit ≤ d.bits.toNat)

def isNaN (d : Double) : Bool := decide (infiniteMagnitude < d.magnitude)

def isInfinite (d : Double) : Bool := d.magnitude == infiniteMagnitude

def isZero (d : Double) : Bool := d.magnitude == 0

def ofMagnitude (negative : Bool) (magnitude : Nat) : Double :=
  ⟨UInt64.ofNat ((if negative then signBit else 0) + magnitude)⟩

def quietNaN : Nat := infiniteMagnitude + Nat.pow 2 51

-- The integer `m` with which a finite number is `m * 2 ^ exponent` up to its sign.
def significand (d : Double) : Nat :=
  if d.magnitude < Nat.pow 2 52 then d.magnitude else d.magnitude % Nat.pow 2 52 + Nat.pow 2 52

def exponent (d : Double) : Int :=
  if d.magnitude < Nat.pow 2 52 then -1074 else ((d.magnitude / Nat.pow 2 52 : Nat) : Int) - 1075

def equals (a b : Double) : Bool :=
  !a.isNaN && (a.bits == b.bits || (a.isZero && b.isZero))

end Double

end Frontend
