import Frontend.Double.Shortest
import Mathlib

-- The rationals that round to a positive finite number are apart from those that round to another one, and
-- the shortest decimal of a number is among those that round to it.

namespace Frontend.Double

namespace Rounding

variable {r : Rounding} {grid : Int} {k : Nat} {v : ℚ}

def lowEnd (r : Rounding) : ℚ := r.low * 2 ^ r.unit

def highEnd (r : Rounding) : ℚ := r.high * 2 ^ r.unit

def Contains (r : Rounding) (v : ℚ) : Prop :=
  if r.closed then r.lowEnd ≤ v ∧ v ≤ r.highEnd else r.lowEnd < v ∧ v < r.highEnd

theorem Contains.bounds (within : r.Contains v) : r.lowEnd ≤ v ∧ v ≤ r.highEnd := by
  unfold Contains at within
  split at within
  · exact within
  · exact ⟨within.1.le, within.2.le⟩

theorem Contains.closed (within : r.Contains v) (atEnd : v = r.lowEnd ∨ v = r.highEnd) :
    r.closed = true := by
  unfold Contains at within
  split at within
  · assumption
  · rcases atEnd with rfl | rfl
    · exact absurd within.1 (lt_irrefl _)
    · exact absurd within.2 (lt_irrefl _)

-- By what both the steps and the units are scaled.
def scale (r : Rounding) (grid : Int) : ℚ := 2 ^ (-r.unit).toNat * 10 ^ (-grid).toNat

theorem scale_pos (r : Rounding) (grid : Int) : 0 < r.scale grid := by
  unfold scale
  positivity

theorem power_split {b : ℚ} (nonzero : b ≠ 0) (n : Int) : b ^ n.toNat = b ^ n * b ^ (-n).toNat := by
  rw [← zpow_natCast, ← zpow_natCast, ← zpow_add₀ nonzero]
  congr 1
  omega

theorem stepSize_eq (r : Rounding) (grid : Int) : (r.stepSize grid : ℚ) = 10 ^ grid * r.scale grid := by
  have tens := power_split (b := 10) (by norm_num) grid
  simp only [stepSize, scale, Nat.pow_eq]
  push_cast
  rw [tens]
  ring

theorem unitSize_eq (r : Rounding) (grid : Int) :
    (r.unitSize grid : ℚ) = 2 ^ r.unit * r.scale grid := by
  have twos := power_split (b := 2) (by norm_num) r.unit
  simp only [unitSize, scale, Nat.pow_eq]
  push_cast
  rw [twos]
  ring

-- Multiples of a unit and multiples of a step compare as their scaled sizes do.
theorem units_le_steps (r : Rounding) (grid : Int) (a k : Nat) :
    a * r.unitSize grid ≤ k * r.stepSize grid ↔ (a * 2 ^ r.unit : ℚ) ≤ k * 10 ^ grid := by
  rw [← Nat.cast_le (α := ℚ)]
  push_cast
  rw [stepSize_eq, unitSize_eq, ← mul_assoc, ← mul_assoc]
  exact mul_le_mul_iff_left₀ (r.scale_pos grid)

theorem steps_le_units (r : Rounding) (grid : Int) (a k : Nat) :
    k * r.stepSize grid ≤ a * r.unitSize grid ↔ (k * 10 ^ grid : ℚ) ≤ a * 2 ^ r.unit := by
  rw [← Nat.cast_le (α := ℚ)]
  push_cast
  rw [stepSize_eq, unitSize_eq, ← mul_assoc, ← mul_assoc]
  exact mul_le_mul_iff_left₀ (r.scale_pos grid)

theorem admits_contains (found : r.admits (r.stepSize grid) (r.unitSize grid) k = true) :
    r.Contains (k * 10 ^ grid) := by
  unfold admits at found
  unfold Contains
  split at found
  · next closed =>
    rw [if_pos closed]
    rw [Bool.and_eq_true, decide_eq_true_iff, decide_eq_true_iff] at found
    exact ⟨(units_le_steps r grid r.low k).1 found.1, (steps_le_units r grid r.high k).1 found.2⟩
  · next open_ =>
    rw [if_neg open_]
    rw [Bool.and_eq_true, decide_eq_true_iff, decide_eq_true_iff] at found
    constructor
    · exact lt_of_not_ge fun above => Nat.not_le.2 found.1 ((steps_le_units r grid r.low k).2 above)
    · exact lt_of_not_ge fun below => Nat.not_le.2 found.2 ((units_le_steps r grid r.high k).2 below)

-- A multiple that is found lies in the interval.
theorem onGrid_contains (found : r.onGrid? grid = some k) : r.Contains (k * 10 ^ grid) := by
  unfold onGrid? at found
  dsimp only at found
  split at found <;> cases found
  · split
    · exact admits_contains (by assumption)
    · exact admits_contains (by assumption)
  · exact admits_contains (by assumption)
  · exact admits_contains (by assumption)

-- On a grid that is no coarser than the units, the point below the middle will do.
theorem below_contains (low : r.low < r.middle) (high : r.middle < r.high)
    (fine : r.stepSize grid ≤ r.unitSize grid) :
    r.Contains ((r.middle * r.unitSize grid / r.stepSize grid : Nat) * 10 ^ grid) := by
  have positive : 0 < r.stepSize grid :=
    Nat.mul_pos (Nat.pow_pos (by decide)) (Nat.pow_pos (by decide))
  have down := Nat.div_mul_le_self (r.middle * r.unitSize grid) (r.stepSize grid)
  have up := Nat.lt_div_mul_add (a := r.middle * r.unitSize grid) positive
  have units : r.low * r.unitSize grid + r.unitSize grid ≤ r.middle * r.unitSize grid := by
    rw [← Nat.succ_mul]
    exact Nat.mul_le_mul_right _ low
  have room : r.middle * r.unitSize grid < r.high * r.unitSize grid :=
    Nat.mul_lt_mul_of_pos_right high (lt_of_lt_of_le positive fine)
  refine admits_contains ?_
  unfold admits
  split <;> simp only [Bool.and_eq_true, decide_eq_true_eq] <;> omega

theorem search_contains (low : r.low < r.middle) (high : r.middle < r.high) {fuel : Nat}
    (fine : r.stepSize (grid - fuel) ≤ r.unitSize (grid - fuel)) :
    r.Contains ((r.search fuel grid).coefficient * 10 ^ (r.search fuel grid).exponent) := by
  induction fuel generalizing grid with
  | zero =>
    rw [Nat.cast_zero, sub_zero] at fine
    exact below_contains low high fine
  | succ fuel ih =>
    unfold search
    split
    · next found => exact onGrid_contains found
    · refine ih ?_
      rw [sub_sub, add_comm 1 (fuel : Int), ← Nat.cast_succ]
      exact fine

end Rounding

-- Powers of ten and powers of two, compared by two of them that are close to each other.
theorem ten_le_two {a b : Nat} (le : 196 * a ≤ 59 * b) : 10 ^ a ≤ 2 ^ b := by
  refine (Nat.pow_le_pow_iff_left (n := 59) (by decide)).1 ?_
  calc (10 ^ a) ^ 59
      = (10 ^ 59) ^ a := pow_right_comm 10 a 59
    _ ≤ (2 ^ 196) ^ a := Nat.pow_le_pow_left (by norm_num) a
    _ = 2 ^ (196 * a) := (pow_mul 2 196 a).symm
    _ ≤ 2 ^ (59 * b) := Nat.pow_le_pow_right (by decide) le
    _ = (2 ^ b) ^ 59 := by rw [← pow_mul, Nat.mul_comm]

theorem two_le_ten {a b : Nat} (le : 28 * b ≤ 93 * a) : 2 ^ b ≤ 10 ^ a := by
  refine (Nat.pow_le_pow_iff_left (n := 93) (by decide)).1 ?_
  calc (2 ^ b) ^ 93
      = (2 ^ 93) ^ b := pow_right_comm 2 b 93
    _ ≤ (10 ^ 28) ^ b := Nat.pow_le_pow_left (by norm_num) b
    _ = 10 ^ (28 * b) := (pow_mul 10 28 b).symm
    _ ≤ 10 ^ (93 * a) := Nat.pow_le_pow_right (by decide) le
    _ = (10 ^ a) ^ 93 := by rw [← pow_mul, Nat.mul_comm]

theorem Rounding.steps_fine {r : Rounding} {grid : Int} (tens : 196 * grid.toNat ≤ 59 * r.unit.toNat)
    (twos : 28 * (-r.unit).toNat ≤ 93 * (-grid).toNat) : r.stepSize grid ≤ r.unitSize grid :=
  Nat.mul_le_mul (ten_le_two tens) (two_le_ten twos)

variable {d : Double}

theorem significand_lt (d : Double) : d.significand < 2 ^ 53 := by
  unfold significand
  simp only [Nat.pow_eq]
  split <;> omega

theorem exponent_bounds (finite : d.magnitude < infiniteMagnitude) :
    -1074 ≤ d.exponent ∧ d.exponent ≤ 971 := by
  unfold exponent
  simp only [infiniteMagnitude, Nat.pow_eq] at *
  split <;> omega

theorem significand_pos (nonzero : d.magnitude ≠ 0) : 0 < d.significand := by
  unfold significand
  simp only [Nat.pow_eq]
  split <;> omega

theorem low_lt_middle (positive : 0 < d.significand) : d.rounding.low < d.rounding.middle := by
  unfold rounding
  dsimp only
  split <;> omega

-- Twenty steps below the coarsest grid, the grid is finer than the units of the interval.
theorem finest_fine (positive : 0 < d.significand) (finite : d.magnitude < infiniteMagnitude) :
    d.rounding.stepSize (d.coarsestGrid - 20) ≤ d.rounding.unitSize (d.coarsestGrid - 20) := by
  obtain ⟨least, greatest⟩ := exponent_bounds finite
  have log : Nat.log2 d.significand < 53 :=
    (Nat.log2_lt (by omega)).2 (significand_lt d)
  have unit : d.rounding.unit = d.exponent - 2 := rfl
  have grid : d.coarsestGrid = ((Nat.log2 d.significand : Nat) + d.exponent + 1) * 30103 / 100000 + 1 := by
    rw [coarsestGrid, Int.fdiv_eq_ediv_of_nonneg _ (by decide)]
  apply Rounding.steps_fine <;> rw [unit, grid] <;> omega

def Rounds (d : Double) (v : ℚ) : Prop := d.rounding.Contains v

-- The shortest decimal rounds to the number it is of.
theorem shortest_rounds (nonzero : d.magnitude ≠ 0) (finite : d.magnitude < infiniteMagnitude) :
    d.Rounds (d.shortest.coefficient * 10 ^ d.shortest.exponent) := by
  have positive := significand_pos nonzero
  have above : d.rounding.middle < d.rounding.high := Nat.lt_add_of_pos_right (by decide)
  exact Rounding.search_contains (low_lt_middle positive) above (finest_fine positive finite)

-- The next greater number is one significand further, or the first one of the next binade.
theorem successor {next : Double} (follows : next.magnitude = d.magnitude + 1) :
    (next.significand = d.significand + 1 ∧ next.exponent = d.exponent ∧
      ¬ (next.significand = 2 ^ 52 ∧ -1074 < next.exponent)) ∨
    (d.significand = 2 ^ 53 - 1 ∧ next.significand = 2 ^ 52 ∧ next.exponent = d.exponent + 1 ∧
      -1074 < next.exponent) := by
  unfold significand exponent
  simp only [Nat.pow_eq]
  rw [follows]
  split <;> split <;> omega

theorem ends_meet {next : Double} (follows : next.magnitude = d.magnitude + 1) :
    d.rounding.highEnd = next.rounding.lowEnd := by
  simp only [Rounding.highEnd, Rounding.lowEnd, rounding, Nat.pow_eq, ← Bool.decide_and,
    decide_eq_true_eq]
  rcases successor follows with ⟨significand, exponent, wide⟩ | ⟨last, first, exponent, above⟩
  · rw [if_neg wide, exponent, significand]
    congr 2
  · rw [if_pos ⟨first, above⟩, first, last, exponent,
      show d.exponent + 1 - 2 = d.exponent - 2 + 1 by ring, zpow_add_one₀ (by norm_num)]
    norm_num
    ring

theorem lowEnd_lt_highEnd (nonzero : d.magnitude ≠ 0) : d.rounding.lowEnd < d.rounding.highEnd := by
  have positive := significand_pos nonzero
  have low : d.rounding.low < d.rounding.high :=
    (low_lt_middle positive).trans (Nat.lt_add_of_pos_right (by decide))
  exact mul_lt_mul_of_pos_right (Nat.cast_lt.2 low) (zpow_pos (by norm_num) _)

theorem closed_iff : d.rounding.closed = true ↔ d.magnitude % 2 = 0 := by
  simp only [rounding, beq_iff_eq, significand, Nat.pow_eq]
  split <;> omega

theorem magnitude_ofMagnitude {m : Nat} (small : m < 2 ^ 63) : (ofMagnitude false m).magnitude = m := by
  simp only [magnitude, ofMagnitude, signBit, Nat.pow_eq, Bool.false_eq_true, if_false, Nat.zero_add,
    UInt64.toNat_ofNat']
  omega

variable {m n : Nat}

-- Between the intervals of two numbers that are no neighbours there is a whole interval.
theorem ends_ordered (less : m < n) (small : n < 2 ^ 63) :
    (ofMagnitude false m).rounding.highEnd ≤ (ofMagnitude false n).rounding.lowEnd ∧
      (n ≠ m + 1 → (ofMagnitude false m).rounding.highEnd < (ofMagnitude false n).rounding.lowEnd) := by
  induction n, less using Nat.le_induction with
  | base =>
    have meet : (ofMagnitude false m).rounding.highEnd = (ofMagnitude false (m + 1)).rounding.lowEnd :=
      ends_meet (by rw [magnitude_ofMagnitude small, magnitude_ofMagnitude (by omega)])
    exact ⟨meet.le, fun other => absurd rfl other⟩
  | succ n less ih =>
    have meet : (ofMagnitude false n).rounding.highEnd = (ofMagnitude false (n + 1)).rounding.lowEnd :=
      ends_meet (by rw [magnitude_ofMagnitude small, magnitude_ofMagnitude (by omega)])
    have positive : (ofMagnitude false n).magnitude ≠ 0 := by
      rw [magnitude_ofMagnitude (by omega)]
      omega
    have further := (ih (by omega)).1.trans_lt ((lowEnd_lt_highEnd positive).trans_eq meet)
    exact ⟨further.le, fun _ => further⟩

theorem rounds_apart {v : ℚ} (less : m < n) (small : n < 2 ^ 63)
    (left : (ofMagnitude false m).Rounds v) (right : (ofMagnitude false n).Rounds v) : False := by
  have upper := left.bounds.2
  have lower := right.bounds.1
  obtain ⟨ordered, apart⟩ := ends_ordered less small
  -- The number could only be the end that both intervals share, which is in one of them alone.
  have neighbours : n = m + 1 := by
    apply Classical.byContradiction
    intro other
    exact absurd (upper.trans_lt (apart other)) (not_lt.2 lower)
  have even := closed_iff.1 (left.closed (.inr (le_antisymm upper (ordered.trans lower))))
  have even' := closed_iff.1 (right.closed (.inl (le_antisymm (upper.trans ordered) lower)))
  rw [magnitude_ofMagnitude (by omega)] at even
  rw [magnitude_ofMagnitude small] at even'
  omega

theorem rounds_unique {v : ℚ} (small : m < 2 ^ 63) (small' : n < 2 ^ 63)
    (left : (ofMagnitude false m).Rounds v) (right : (ofMagnitude false n).Rounds v) : m = n := by
  rcases Nat.lt_trichotomy m n with less | same | greater
  · exact (rounds_apart less small' left right).elim
  · exact same
  · exact (rounds_apart greater small right left).elim

end Frontend.Double
