import Frontend.Value
import Mathlib.Algebra.Group.Int.Defs

-- How the members of an enum are numbered.  A value that is not written is one more than the value before it.
-- A counter of 64 bits agrees with this until a member comes behind the greatest value.

namespace Frontend

-- The values of members for which the values `given` are written, where the first member has the value
-- `start` if none is written for it.
structure Numbered (start : Int) (given : List (Option Int)) (values : List Int) : Prop where
  length : values.length = given.length
  explicit : ∀ (i : Nat) (v : Int), given[i]? = some (some v) → values[i]? = some v
  first : given[0]? = some none → values[0]? = some start
  next : ∀ (i : Nat) (v : Int), given[i + 1]? = some none → values[i]? = some v → values[i + 1]? = some (v + 1)

-- The member behind the one at `i` has no value of its own, and there is none behind that of the one at `i`.
def Overflows (given : List (Option Int)) (values : List Int) (i : Nat) : Prop :=
  values[i]? = some (2 ^ 63 - 1) ∧ given[i + 1]? = some none

variable {start : Int} {given : List (Option Int)} {values others : List Int}

namespace Numbered

theorem nil : Numbered start [] [] := ⟨rfl, nofun, nofun, nofun⟩

theorem cons {written : Option Int} (numbered : Numbered (written.getD start + 1) given values) :
    Numbered start (written :: given) (written.getD start :: values) where
  length := congrArg (· + 1) numbered.length
  explicit
    | 0, v, is => by cases is; rfl
    | i + 1, v, is => numbered.explicit i v is
  first is := by cases is; rfl
  next
    | 0, v, is, before => by cases before; exact numbered.first is
    | i + 1, v, is, before => numbered.next i v is before

theorem tail {written : Option Int} (numbered : Numbered start (written :: given) values) :
    ∃ others, values = written.getD start :: others ∧ Numbered (written.getD start + 1) given others := by
  cases values with
  | nil => cases numbered.length
  | cons value others =>
    have head : value = written.getD start := by
      cases written with
      | none => exact Option.some.inj (numbered.first rfl)
      | some v => exact Option.some.inj (numbered.explicit 0 v rfl)
    subst head
    exact ⟨others, rfl, Nat.succ.inj numbered.length, fun i v is => numbered.explicit (i + 1) v is,
      fun is => numbered.next 0 _ is rfl, fun i v is before => numbered.next (i + 1) v is before⟩

theorem unique (numbered : Numbered start given values) (again : Numbered start given others) :
    values = others := by
  induction given generalizing start values others with
  | nil => rw [List.length_eq_zero_iff.1 numbered.length, List.length_eq_zero_iff.1 again.length]
  | cons written given ih =>
    obtain ⟨rest, rfl, behind⟩ := numbered.tail
    obtain ⟨rest', rfl, behind'⟩ := again.tail
    rw [ih behind behind']

theorem overflow_next {i : Nat} (numbered : Numbered start given values) (overflows : Overflows given values i) :
    values[i + 1]? = some (2 ^ 63) :=
  numbered.next i _ overflows.2 overflows.1

end Numbered

theorem exists_numbered (start : Int) (given : List (Option Int)) : ∃ values, Numbered start given values := by
  induction given generalizing start with
  | nil => exact ⟨[], .nil⟩
  | cons written given ih =>
    obtain ⟨values, numbered⟩ := ih (written.getD start + 1)
    exact ⟨_, numbered.cons⟩

-- The value that is due to the next member.  Behind the greatest value there is none.
def StandsAt : Option Int64 → Int → Prop
  | some v, n => v.toInt = n
  | none, n => n = 2 ^ 63

theorem zero_standsAt : StandsAt (some 0) 0 := rfl

theorem successor_standsAt (v : Int64) : StandsAt (successor? v) (v.toInt + 1) := by
  rw [successor?]
  split
  · next greatest =>
    subst greatest
    rfl
  · next less =>
    have bounded : v.toInt < 2 ^ 63 - 1 := by
      have most := v.toInt_lt
      have other : v.toInt ≠ Int64.maxValue.toInt := fun same => less (Int64.toInt_inj.1 same)
      have greatest : Int64.maxValue.toInt = 2 ^ 63 - 1 := rfl
      omega
    have least := v.le_toInt
    show (v + 1).toInt = v.toInt + 1
    rw [Int64.toInt_add, Int64.toInt_one, Int.bmod_eq_of_le (by omega) (by omega)]

-- All the members have a value, counting on from `next`.
inductive Counts : Option Int64 → List (Option Int) → List Int64 → Prop where
  | none {next : Option Int64} : Counts next [] []
  | explicit {next : Option Int64} {v : Int64} {given : List (Option Int)} {values : List Int64} :
      Counts (successor? v) given values → Counts next (some v.toInt :: given) (v :: values)
  | automatic {v : Int64} {given : List (Option Int)} {values : List Int64} :
      Counts (successor? v) given values → Counts (some v) (Option.none :: given) (v :: values)

-- Counting on from `next`, the member at this index is the first one without a value.
inductive Stuck : Option Int64 → List (Option Int) → Nat → Prop where
  | here {given : List (Option Int)} : Stuck none (none :: given) 0
  | explicit {next : Option Int64} {v : Int64} {given : List (Option Int)} {j : Nat} :
      Stuck (successor? v) given j → Stuck next (some v.toInt :: given) (j + 1)
  | automatic {v : Int64} {given : List (Option Int)} {j : Nat} :
      Stuck (successor? v) given j → Stuck (some v) (none :: given) (j + 1)

variable {next : Option Int64} {j : Nat}

theorem Counts.cons {value : Option Int64} {v : Int64} {others : List (Option Int)} {values : List Int64}
    (decided : value.or next = some v) (counts : Counts (successor? v) others values) :
    Counts next (value.map Int64.toInt :: others) (v :: values) := by
  cases value with
  | none =>
    cases decided
    exact .automatic counts
  | some w =>
    cases decided
    exact .explicit counts

theorem Counts.nil {values : List Int64} (counts : Counts next [] values) : values = [] := by
  cases counts
  rfl

theorem Counts.uncons {value : Option Int64} {others : List (Option Int)} {values : List Int64}
    (counts : Counts next (value.map Int64.toInt :: others) values) :
    ∃ v rest, values = v :: rest ∧ value.or next = some v ∧ Counts (successor? v) others rest := by
  generalize same : value.map Int64.toInt :: others = all at counts
  cases counts with
  | none => cases same
  | @explicit _ v _ rest later =>
    obtain ⟨written, rfl⟩ := List.cons_eq_cons.1 same
    obtain ⟨w, rfl, equal⟩ := Option.map_eq_some_iff.1 written
    rw [Int64.toInt_inj] at equal
    subst equal
    exact ⟨w, rest, rfl, rfl, later⟩
  | @automatic v _ rest later =>
    obtain ⟨written, rfl⟩ := List.cons_eq_cons.1 same
    rw [Option.map_eq_none_iff] at written
    subst written
    exact ⟨v, rest, rfl, rfl, later⟩

theorem Stuck.not_nil : ¬ Stuck next [] j := by
  intro stuck
  cases stuck

theorem Stuck.uncons {value : Option Int64} {others : List (Option Int)}
    (stuck : Stuck next (value.map Int64.toInt :: others) j) : (j = 0 ∧ value = none ∧ next = none) ∨
      ∃ v i, j = i + 1 ∧ value.or next = some v ∧ Stuck (successor? v) others i := by
  generalize same : value.map Int64.toInt :: others = all at stuck
  cases stuck with
  | here =>
    obtain ⟨written, -⟩ := List.cons_eq_cons.1 same
    exact .inl ⟨rfl, Option.map_eq_none_iff.1 written, rfl⟩
  | @explicit _ v _ i later =>
    obtain ⟨written, rfl⟩ := List.cons_eq_cons.1 same
    obtain ⟨w, rfl, equal⟩ := Option.map_eq_some_iff.1 written
    rw [Int64.toInt_inj] at equal
    subst equal
    exact .inr ⟨w, i, rfl, rfl, later⟩
  | @automatic v _ i later =>
    obtain ⟨written, rfl⟩ := List.cons_eq_cons.1 same
    rw [Option.map_eq_none_iff] at written
    subst written
    exact .inr ⟨v, i, rfl, rfl, later⟩

theorem counts_or_stuck (fits : ∀ v, some v ∈ given → ∃ n : Int64, n.toInt = v) (next : Option Int64) :
    (∃ values, Counts next given values) ∨ ∃ j, Stuck next given j := by
  induction given generalizing next with
  | nil => exact .inl ⟨[], .none⟩
  | cons written given ih =>
    have later := ih fun v among => fits v (List.mem_cons_of_mem _ among)
    cases written with
    | none =>
      cases next with
      | none => exact .inr ⟨0, .here⟩
      | some v =>
        rcases later (successor? v) with ⟨values, counts⟩ | ⟨j, stuck⟩
        · exact .inl ⟨v :: values, .automatic counts⟩
        · exact .inr ⟨j + 1, .automatic stuck⟩
    | some n =>
      obtain ⟨v, rfl⟩ := fits n List.mem_cons_self
      rcases later (successor? v) with ⟨values, counts⟩ | ⟨j, stuck⟩
      · exact .inl ⟨v :: values, .explicit counts⟩
      · exact .inr ⟨j + 1, .explicit stuck⟩

theorem Counts.numbered {values : List Int64} (counts : Counts next given values) (stands : StandsAt next start) :
    Numbered start given (values.map Int64.toInt) := by
  induction counts generalizing start with
  | none => exact .nil
  | @explicit _ v _ _ _ ih => exact @Numbered.cons start _ _ (some v.toInt) (ih (successor_standsAt v))
  | @automatic v _ _ _ ih =>
    cases stands
    exact @Numbered.cons _ _ _ Option.none (ih (successor_standsAt v))

theorem Counts.no_overflow {values : List Int64} (counts : Counts next given values) (stands : StandsAt next start)
    (i : Nat) : ¬ Overflows given (values.map Int64.toInt) i := by
  intro overflows
  have due := (counts.numbered stands).overflow_next overflows
  rw [List.getElem?_map] at due
  obtain ⟨v, -, same⟩ := Option.map_eq_some_iff.1 due
  exact absurd v.toInt_lt (by omega)

-- The member at this index is the first one that is due a value behind the greatest one.
def DueAt (given : List (Option Int)) (values : List Int) (j : Nat) : Prop :=
  given[j]? = some none ∧ values[j]? = some (2 ^ 63) ∧ ∀ i < j, ∀ v, values[i]? = some v → v < 2 ^ 63

theorem DueAt.cons {written : Option Int} (v : Int64) (due : DueAt given values j) :
    DueAt (written :: given) (v.toInt :: values) (j + 1) := by
  refine ⟨due.1, due.2.1, fun i before w is => ?_⟩
  cases i with
  | zero =>
    cases is
    exact v.toInt_lt
  | succ i => exact due.2.2 i (Nat.lt_of_succ_lt_succ before) w is

theorem Stuck.due (stuck : Stuck next given j) (stands : StandsAt next start)
    (numbered : Numbered start given values) : DueAt given values j := by
  induction stuck generalizing start values with
  | here =>
    cases stands
    exact ⟨rfl, numbered.first rfl, nofun⟩
  | @explicit _ v _ _ _ ih =>
    obtain ⟨others, rfl, behind⟩ := numbered.tail
    exact (ih (successor_standsAt v) behind).cons v
  | @automatic v _ _ _ ih =>
    cases stands
    obtain ⟨others, rfl, behind⟩ := numbered.tail
    exact (ih (successor_standsAt v) behind).cons v

-- Counting on from zero, it is the first one behind the greatest value.
theorem Stuck.overflows (stuck : Stuck (some 0) given j) (numbered : Numbered 0 given values) :
    ∃ i, j = i + 1 ∧ Overflows given values i ∧ ∀ k < i, ¬ Overflows given values k := by
  obtain ⟨written, due, small⟩ := stuck.due zero_standsAt numbered
  cases j with
  | zero =>
    cases (numbered.first written).symm.trans due
  | succ i =>
    have stands : i < values.length := by
      have := (List.getElem?_eq_some_iff.1 due).1
      omega
    have before : values[i]? = some values[i] := List.getElem?_eq_getElem stands
    have same := Option.some.inj ((numbered.next i _ written before).symm.trans due)
    have greatest : values[i] = 2 ^ 63 - 1 := by omega
    refine ⟨i, rfl, ⟨by rw [before, greatest], written⟩, fun k earlier overflows => ?_⟩
    exact absurd (small (k + 1) (by omega) _ (numbered.overflow_next overflows)) (by omega)

end Frontend
