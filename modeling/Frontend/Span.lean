-- Places in a source text, counted in bytes.  A place is a first byte and a length; the length is a 32-bit
-- word, and a longer stretch is recorded with the greatest length there is.

namespace Frontend

structure Span where
  lo : Nat
  len : UInt32
deriving DecidableEq, Inhabited

namespace Span

def maxLen : Nat := 4294967295

-- The stretch from byte `lo` up to, and without, byte `hi`.
def ofBounds (lo hi : Nat) : Span :=
  -- Bounds in the wrong order give the empty stretch.
  ⟨lo, UInt32.ofNat (min (hi - lo) maxLen)⟩

def empty (lo : Nat) : Span := ⟨lo, 0⟩

def hi (span : Span) : Nat := span.lo + span.len.toNat

def text (span : Span) : String := toString span.lo ++ ".." ++ toString span.hi

def details (span : Span) : String :=
  "Span(" ++ span.text ++ ", len: " ++ toString span.len.toNat ++ ")"

-- The characters of `source` in the stretch, if its ends do not split any.
def extract? (span : Span) (source : String) : Option String :=
  String.fromUTF8? (source.toUTF8.extract span.lo span.hi)

@[simp] theorem lo_ofBounds (lo hi : Nat) : (ofBounds lo hi).lo = lo := rfl

@[simp] theorem hi_empty (lo : Nat) : (empty lo).hi = lo := by simp [empty, hi]

theorem hi_ofBounds (lo hi : Nat) (ordered : lo ≤ hi) (short : hi - lo ≤ maxLen) :
    (ofBounds lo hi).hi = hi := by
  have small : hi - lo < 4294967296 := Nat.lt_of_le_of_lt short (by decide)
  simp only [Span.hi, ofBounds, Nat.min_eq_left short, UInt32.toNat_ofNat']
  rw [Nat.mod_eq_of_lt (by simpa using small)]
  omega

end Span

structure Located (α : Type) where
  span : Span
  value : α
deriving DecidableEq

namespace Located

def map {α β : Type} (f : α → β) (x : Located α) : Located β := ⟨x.span, f x.value⟩

def message {α : Type} (words : α → String) (x : Located α) : String :=
  x.span.text ++ ": " ++ words x.value

end Located

end Frontend
