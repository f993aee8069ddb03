import Frontend.Proofs.DecimalText
import Frontend.Proofs.Roundings

-- The text of a number that digits can write tells the number.

namespace Frontend.Double

open Text

variable {m n : Nat}

def Unsigned (d : Double) : Prop := ∃ m ≤ infiniteMagnitude, d = ofMagnitude false m

theorem magnitudeOfDecimal_le (coefficient digits : Nat) (exponent : Int) :
    magnitudeOfDecimal coefficient digits exponent ≤ infiniteMagnitude := by
  unfold magnitudeOfDecimal
  split
  · exact Nat.zero_le _
  split
  · exact Nat.le_refl _
  split
  · exact Nat.zero_le _
  unfold nearestMagnitude
  split
  · exact Nat.zero_le _
  · exact Nat.min_le_right _ _

theorem ofDigits_unsigned (whole fraction : List Char) : (ofDigits whole fraction).Unsigned :=
  ⟨_, magnitudeOfDecimal_le _ _ _, rfl⟩

theorem infinite_small : infiniteMagnitude < 2 ^ 63 := by
  simp only [infiniteMagnitude, Nat.pow_eq]
  norm_num

theorem magnitude_unsigned (bound : m ≤ infiniteMagnitude) : (ofMagnitude false m).magnitude = m :=
  magnitude_ofMagnitude (bound.trans_lt infinite_small)

-- The text of a finite number spells zero if the number is zero, or else what rounds to the number.
def Reads (m : Nat) (text : String) : Prop :=
  ∃ v, Spells text v ∧ (m = 0 → v = 0) ∧ (m ≠ 0 → (ofMagnitude false m).Rounds v)

theorem zero_spells : Spells "0.0" 0 := by
  refine ⟨⟨['0'], ['0'], 0⟩, ⟨by simp, List.forall_mem_singleton.2 rfl, List.forall_mem_singleton.2 rfl⟩,
    by decide, ?_⟩
  have zeros : digitsValue (['0'] ++ ['0']) = 0 := rfl
  rw [Spelling.value, zeros, Nat.cast_zero, zero_mul]

theorem text_unsigned (bound : m ≤ infiniteMagnitude) :
    (m = infiniteMagnitude ∧ (ofMagnitude false m).text = "inf") ∨
      (m < infiniteMagnitude ∧ Reads m (ofMagnitude false m).text) := by
  have magnitude := magnitude_unsigned bound
  have bits : (ofMagnitude false m).bits.toNat < signBit := by
    have small := bound.trans_lt infinite_small
    simp only [ofMagnitude, signBit, Nat.pow_eq, Bool.false_eq_true, if_false, Nat.zero_add,
      UInt64.toNat_ofNat']
    omega
  have number : (ofMagnitude false m).isNaN = false := by simp [isNaN, magnitude, bound]
  have positive : (ofMagnitude false m).isNegative = false := by simpa [isNegative] using bits
  unfold text
  rw [number, positive]
  rcases Nat.eq_or_lt_of_le bound with infinite | finite
  · left
    have found : (ofMagnitude false m).isInfinite = true := beq_iff_eq.2 (magnitude.trans infinite)
    rw [found]
    exact ⟨infinite, rfl⟩
  · right
    have other : (ofMagnitude false m).isInfinite = false := by
      simp [isInfinite, magnitude, Nat.ne_of_lt finite]
    rw [other]
    refine ⟨finite, ?_⟩
    by_cases zero : m = 0
    · have found : (ofMagnitude false m).isZero = true := beq_iff_eq.2 (magnitude.trans zero)
      rw [found]
      exact ⟨0, zero_spells, fun _ => rfl, fun nonzero => absurd zero nonzero⟩
    · have found : (ofMagnitude false m).isZero = false := by simp [isZero, magnitude, zero]
      rw [found]
      refine ⟨(ofMagnitude false m).shortest.value, ?_, fun same => absurd same zero, fun _ => ?_⟩
      · simpa using Decimal.text_spells (ofMagnitude false m).shortest
      · exact shortest_rounds (by rwa [magnitude]) (by rwa [magnitude])

-- What rounds to a number other than zero is not zero.
theorem Rounds.pos {d : Double} {v : ℚ} (rounds : d.Rounds v) (nonzero : d.magnitude ≠ 0) : 0 < v := by
  have positive := significand_pos nonzero
  have low : 0 < d.rounding.low := by
    unfold rounding
    dsimp only
    split <;> omega
  have lowest : 0 < d.rounding.lowEnd := mul_pos (Nat.cast_pos.2 low) (zpow_pos (by norm_num) _)
  exact lowest.trans_le rounds.bounds.1

theorem Reads.unique {text : String} (left : Reads m text) (right : Reads n text)
    (small : m < infiniteMagnitude) (small' : n < infiniteMagnitude) : m = n := by
  have zero {m : Nat} {v : ℚ} (small : m < infiniteMagnitude)
      (rounds : m ≠ 0 → (ofMagnitude false m).Rounds v) (none : v = 0) : m = 0 := by
    apply Classical.byContradiction
    intro nonzero
    have positive := (rounds nonzero).pos (by rwa [magnitude_unsigned small.le])
    exact absurd none positive.ne'
  obtain ⟨v, spells, zeroes, rounds⟩ := left
  obtain ⟨w, spells', zeroes', rounds'⟩ := right
  obtain rfl := spells.unique spells'
  by_cases none : v = 0
  · rw [zero small rounds none, zero small' rounds' none]
  · exact rounds_unique (small.trans infinite_small) (small'.trans infinite_small)
      (rounds fun same => none (zeroes same)) (rounds' fun same => none (zeroes' same))

-- Digits do not spell what the text of the infinite number says.
theorem infinite_not_read : ¬ Reads m "inf" := by
  rintro ⟨v, spells, -⟩
  cases spells.begins 'i' rfl

theorem Unsigned.text_injective {c d : Double} (left : c.Unsigned) (right : d.Unsigned)
    (same : c.text = d.text) : c = d := by
  obtain ⟨m, bound, rfl⟩ := left
  obtain ⟨n, bound', rfl⟩ := right
  rcases text_unsigned bound with ⟨infinite, text⟩ | ⟨finite, reads⟩ <;>
    rcases text_unsigned bound' with ⟨infinite', text'⟩ | ⟨finite', reads'⟩
  · rw [infinite, infinite']
  · rw [← same, text] at reads'
    exact absurd reads' infinite_not_read
  · rw [same, text'] at reads
    exact absurd reads infinite_not_read
  · rw [same] at reads
    rw [reads.unique reads' finite finite']

theorem integer_no_newline (n : Int) : '\n' ∉ (toString n).toList := by
  have digits (n : Nat) : '\n' ∉ n.repr.toList := fun within => by cases digitsOf_isDigit _ within
  rw [Int.toString_eq_repr, Int.repr_eq_if]
  split
  · exact digits _
  · rw [String.toList_append, List.mem_append]
    rintro (sign | within)
    · revert sign; decide
    · exact digits _ within

theorem Spells.no_newline {text : String} {v : ℚ} (spells : Spells text v) : '\n' ∉ text.toList := by
  obtain ⟨s, valid, chars, -⟩ := spells
  rw [chars, Spelling.chars, List.mem_append, List.mem_append, not_or, not_or]
  refine ⟨fun within => (by cases valid.whole _ within), ?_, ?_⟩
  · unfold Spelling.fractionChars
    split
    · exact List.not_mem_nil
    · exact List.not_mem_cons_of_ne_of_not_mem (by decide) fun within => by cases valid.fraction _ within
  · unfold Spelling.powerChars
    split
    · exact List.not_mem_nil
    · exact List.not_mem_cons_of_ne_of_not_mem (by decide) (integer_no_newline _)

theorem Unsigned.no_newline {d : Double} (unsigned : d.Unsigned) : '\n' ∉ d.text.toList := by
  obtain ⟨m, bound, rfl⟩ := unsigned
  rcases text_unsigned bound with ⟨-, text⟩ | ⟨-, v, spells, -⟩
  · rw [text]; decide
  · exact spells.no_newline

end Frontend.Double
