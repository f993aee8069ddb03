-- Ranges of code points, the form in which the character classes of this library are tabulated.

namespace Frontend.Text

-- The first and the last code point of a range; both belong to it.
abbrev CharRange := Nat × Nat

def CharRange.contains (range : CharRange) (c : Char) : Bool :=
  decide (range.1 ≤ c.toNat) && decide (c.toNat ≤ range.2)

theorem CharRange.contains_iff (range : CharRange) (c : Char) :
    range.contains c = true ↔ range.1 ≤ c.toNat ∧ c.toNat ≤ range.2 := by
  simp [CharRange.contains]

end Frontend.Text
