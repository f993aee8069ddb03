import Frontend.Double.Reading
import Frontend.Double.Shortest
import Frontend.Proofs.QuotedText
import Mathlib

-- The text of a decimal tells its value.  Whether an exponent is written or not, the text is a run of
-- digits with at most one point in it and at most one exponent behind it.

namespace Frontend.Double

open Text

theorem digitsValue_eq (digits : List Char) : digitsValue digits = Nat.ofDigitChars 10 digits 0 :=
  Nat.ofDigitChars_eq_foldl.symm

theorem digitsValue_append_zeros (digits : List Char) (count : Nat) :
    digitsValue (digits ++ List.replicate count '0') = digitsValue digits * 10 ^ count := by
  rw [digitsValue_eq, digitsValue_eq, Nat.ofDigitChars_append, Nat.ofDigitChars_replicate_zero,
    Nat.mul_comm]

theorem digitsValue_zeros_append (digits : List Char) (count : Nat) :
    digitsValue (List.replicate count '0' ++ digits) = digitsValue digits := by
  rw [digitsValue_eq, digitsValue_eq, Nat.ofDigitChars_append, Nat.ofDigitChars_replicate_zero,
    Nat.mul_zero]

def digitsOf (n : Nat) : List Char := (toString n).toList

theorem digitsOf_eq (n : Nat) : digitsOf n = Nat.toDigits 10 n := by
  rw [digitsOf, Nat.toString_eq_ofList_toDigits, String.toList_ofList]

theorem digitsValue_digitsOf (n : Nat) : digitsValue (digitsOf n) = n := by
  rw [digitsValue_eq, digitsOf_eq, Nat.ofDigitChars_ten_toDigits]

theorem digitsOf_isDigit {n : Nat} : ∀ c ∈ digitsOf n, c.isDigit = true := by
  intro c within
  rw [digitsOf_eq] at within
  exact Nat.isDigit_of_mem_toDigits (by decide) (by decide) within

theorem digitsOf_length (n : Nat) : 0 < (digitsOf n).length := by
  rw [digitsOf_eq]
  exact Nat.length_toDigits_pos

theorem zeros_isDigit {count : Nat} : ∀ c ∈ List.replicate count '0', c.isDigit = true := by
  intro c within
  rw [List.eq_of_mem_replicate within]
  rfl

-- Digits in front of a point and behind it, and the power of ten that is written behind them.
structure Spelling where
  whole : List Char
  fraction : List Char
  power : Int

namespace Spelling

variable {s t : Spelling}

def fractionChars (s : Spelling) : List Char := if s.fraction = [] then [] else '.' :: s.fraction

def powerChars (s : Spelling) : List Char := if s.power = 0 then [] else 'e' :: (toString s.power).toList

def chars (s : Spelling) : List Char := s.whole ++ (s.fractionChars ++ s.powerChars)

def value (s : Spelling) : ℚ :=
  digitsValue (s.whole ++ s.fraction) * 10 ^ (s.power - (s.fraction.length : Int))

structure Valid (s : Spelling) : Prop where
  begins : s.whole ≠ []
  whole : ∀ c ∈ s.whole, c.isDigit = true
  fraction : ∀ c ∈ s.fraction, c.isDigit = true

theorem powerChars_ends : ∀ c ∈ s.powerChars.head?, c.isDigit = false := by
  intro c first
  unfold powerChars at first
  split at first
  · cases first
  · cases first; rfl

theorem fractionChars_ends : ∀ c ∈ (s.fractionChars ++ s.powerChars).head?, c.isDigit = false := by
  intro c first
  unfold fractionChars at first
  split at first
  · exact powerChars_ends c first
  · cases first; rfl

theorem power_unique (same : s.powerChars = t.powerChars) : s.power = t.power := by
  unfold powerChars at same
  split at same <;> split at same
  · next left right => rw [left, right]
  · cases same
  · cases same
  · exact Int.repr_inj.1 (String.toList_inj.1 (List.cons.inj same).2)

-- An exponent does not begin with a point.
theorem powerChars_no_point {cs : List Char} : s.powerChars ≠ '.' :: cs := by
  unfold powerChars
  split <;> nofun

theorem fraction_unique (left : s.Valid) (right : t.Valid)
    (same : s.fractionChars ++ s.powerChars = t.fractionChars ++ t.powerChars) :
    s.fraction = t.fraction ∧ s.powerChars = t.powerChars := by
  unfold fractionChars at same
  split at same <;> split at same
  · next left right => exact ⟨left.trans right.symm, same⟩
  · exact absurd same powerChars_no_point
  · exact absurd same.symm powerChars_no_point
  · exact run_unique left.fraction right.fraction powerChars_ends powerChars_ends
      (List.cons.inj same).2

theorem value_unique (left : s.Valid) (right : t.Valid) (same : s.chars = t.chars) :
    s.value = t.value := by
  obtain ⟨whole, behind⟩ :=
    run_unique left.whole right.whole fractionChars_ends fractionChars_ends same
  obtain ⟨fraction, power⟩ := fraction_unique left right behind
  rw [value, value, whole, fraction, power_unique power]

end Spelling

-- The text spells a number of this value.
def Spells (text : String) (value : ℚ) : Prop :=
  ∃ s : Spelling, s.Valid ∧ text.toList = s.chars ∧ s.value = value

theorem Spells.unique {text : String} {v w : ℚ} (left : Spells text v) (right : Spells text w) :
    v = w := by
  obtain ⟨s, valid, chars, rfl⟩ := left
  obtain ⟨t, valid', chars', rfl⟩ := right
  exact Spelling.value_unique valid valid' (chars.symm.trans chars')

theorem Spells.begins {text : String} {v : ℚ} (spells : Spells text v) :
    ∀ c ∈ text.toList.head?, c.isDigit = true := by
  obtain ⟨s, valid, chars, -⟩ := spells
  intro c first
  rw [chars, Spelling.chars, List.head?_append_of_ne_nil _ valid.begins] at first
  exact valid.whole c (List.mem_of_mem_head? first)

namespace Decimal

def value (x : Decimal) : ℚ := x.coefficient * 10 ^ x.exponent

variable {x : Decimal}

-- The power of ten of the first digit.
def leading (x : Decimal) : Int := (digitsOf x.coefficient).length - 1 + x.exponent

theorem spells_scaled (power : x.leading ≠ 0) :
    Spells (String.ofList ((digitsOf x.coefficient).take 1)
      ++ (if (digitsOf x.coefficient).drop 1 = [] then ""
          else "." ++ String.ofList ((digitsOf x.coefficient).drop 1))
      ++ "e" ++ toString x.leading) x.value := by
  have long := digitsOf_length x.coefficient
  refine ⟨⟨(digitsOf x.coefficient).take 1, (digitsOf x.coefficient).drop 1, x.leading⟩, ⟨?_, ?_, ?_⟩,
    ?_, ?_⟩
  · exact fun none => by simp [List.take_eq_nil_iff] at none; simp [none] at long
  · exact fun c within => digitsOf_isDigit c (List.mem_of_mem_take within)
  · exact fun c within => digitsOf_isDigit c (List.mem_of_mem_drop within)
  · simp only [Spelling.chars, Spelling.fractionChars, Spelling.powerChars, if_neg power,
      String.toList_append, String.toList_ofList]
    split <;> simp
  · rw [Spelling.value, value, List.take_append_drop, digitsValue_digitsOf, List.length_drop]
    congr 2
    dsimp only [leading]
    omega

theorem spells_whole (le : 0 ≤ x.exponent) :
    Spells (String.ofList (digitsOf x.coefficient ++ List.replicate x.exponent.toNat '0') ++ ".0")
      x.value := by
  have long := digitsOf_length x.coefficient
  refine ⟨⟨digitsOf x.coefficient ++ List.replicate x.exponent.toNat '0', ['0'], 0⟩, ⟨?_, ?_, ?_⟩,
    ?_, ?_⟩
  · exact fun none => by simp [(List.append_eq_nil_iff.1 none).1] at long
  · exact List.forall_mem_append.2 ⟨digitsOf_isDigit, zeros_isDigit⟩
  · exact List.forall_mem_singleton.2 rfl
  · simp [Spelling.chars, Spelling.fractionChars, Spelling.powerChars]
  · obtain ⟨n, same⟩ := Int.eq_ofNat_of_zero_le le
    have zeros := digitsValue_append_zeros (digitsOf x.coefficient) (n + 1)
    rw [List.replicate_succ', ← List.append_assoc, digitsValue_digitsOf] at zeros
    have shifted : (x.coefficient : ℚ) * 10 ^ (n + 1) * 10 ^ (-1 : Int) = x.coefficient * 10 ^ n := by
      rw [pow_succ, zpow_neg_one]
      field_simp
    simp only [Spelling.value, value, same, Int.toNat_natCast, zeros]
    push_cast
    exact shifted

theorem spells_point (small : x.exponent < 0) (le : 0 ≤ x.leading) :
    Spells (String.ofList ((digitsOf x.coefficient).take (x.leading.toNat + 1)) ++ "."
      ++ String.ofList ((digitsOf x.coefficient).drop (x.leading.toNat + 1))) x.value := by
  have bounds : x.leading.toNat + 1 < (digitsOf x.coefficient).length := by
    unfold leading at *
    omega
  refine ⟨⟨(digitsOf x.coefficient).take (x.leading.toNat + 1),
    (digitsOf x.coefficient).drop (x.leading.toNat + 1), 0⟩, ⟨?_, ?_, ?_⟩, ?_, ?_⟩
  · intro none
    rcases List.take_eq_nil_iff.1 none with zero | none
    · omega
    · rw [none] at bounds; cases bounds
  · exact fun c within => digitsOf_isDigit c (List.mem_of_mem_take within)
  · exact fun c within => digitsOf_isDigit c (List.mem_of_mem_drop within)
  · have some : (digitsOf x.coefficient).drop (x.leading.toNat + 1) ≠ [] := by
      simpa using bounds
    simp [Spelling.chars, Spelling.fractionChars, Spelling.powerChars, some]
  · rw [Spelling.value, value, List.take_append_drop, digitsValue_digitsOf, List.length_drop]
    congr 2
    dsimp only [leading] at *
    omega

theorem spells_small (small : x.leading < 0) :
    Spells ("0." ++ String.ofList
      (List.replicate (-x.leading - 1).toNat '0' ++ digitsOf x.coefficient)) x.value := by
  have long := digitsOf_length x.coefficient
  refine ⟨⟨['0'], List.replicate (-x.leading - 1).toNat '0' ++ digitsOf x.coefficient, 0⟩,
    ⟨by simp, ?_, ?_⟩, ?_, ?_⟩
  · exact List.forall_mem_singleton.2 rfl
  · exact List.forall_mem_append.2 ⟨zeros_isDigit, digitsOf_isDigit⟩
  · have some : List.replicate (-x.leading - 1).toNat '0' ++ digitsOf x.coefficient ≠ [] :=
      fun none => by simp [(List.append_eq_nil_iff.1 none).2] at long
    simp only [Spelling.chars, Spelling.fractionChars, Spelling.powerChars, if_neg some]
    simp
  · have zeros := digitsValue_zeros_append (digitsOf x.coefficient) ((-x.leading - 1).toNat + 1)
    rw [List.replicate_succ, List.cons_append] at zeros
    simp only [Spelling.value, value, List.singleton_append, zeros, digitsValue_digitsOf]
    congr 2
    simp only [List.length_append, List.length_replicate]
    unfold leading at *
    omega

theorem text_spells (x : Decimal) : Spells (x.text layout) x.value := by
  unfold text
  dsimp only
  split
  · next outside =>
    refine spells_scaled ?_
    have : (16 : Int) ≤ x.leading ∨ x.leading < -4 := outside
    omega
  split
  · next le => exact spells_whole le
  split
  · next small le => exact spells_point (by omega) le
  · next le => exact spells_small (Int.not_le.1 le)

end Decimal

end Frontend.Double
