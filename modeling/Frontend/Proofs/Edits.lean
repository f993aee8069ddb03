import Frontend.Scope.Tree

-- What additions and changes of entries do to a tree.  A tree that grew from the empty one by such edits is
-- nested: every entry but the root stands in one that was added before it, and the children of an entry are
-- those that stand in it, in the order of addition.

namespace Frontend.Scope.Tree

variable {t t' : Tree} {n p k : Nat} {d : Draft} {f : Draft → Draft}

-- What an entry is, apart from where it stands.
def draft? (t : Tree) (n : Nat) : Option Draft := (t.get? (.declared n)).map Entry.toDraft

@[simp] theorem size_push : (t.push p d).size = t.size + 1 := by
  simp [push, size]

@[simp] theorem size_modify : (t.modify k f).size = t.size := by
  simp [modify, size]

theorem get?_push : (t.push p d).get? (.declared n) =
    if n = t.size then some { d with parent := some (.declared p), children := [] }
    else (t.get? (.declared n)).map fun e =>
      if n = p then { e with children := e.children ++ [.declared t.size] } else e := by
  simp only [get?, push, Array.getElem?_push, Array.size_modify, Array.getElem?_modify]
  by_cases last : n = t.size
  · simp [last, size]
  · by_cases same : p = n
    · simp [same, size] at last ⊢
    · simp [size] at last
      simp [last, same, Ne.symm same, size]

theorem get?_modify : (t.modify k f).get? (.declared n) = (t.get? (.declared n)).map fun e =>
    if n = k then { e with toDraft := f e.toDraft } else e := by
  simp only [get?, modify, Array.getElem?_modify]
  by_cases same : k = n
  · simp [same]
  · simp [same, Ne.symm same]

theorem ext_get? (same : ∀ n, t.get? (.declared n) = t'.get? (.declared n)) : t = t' := by
  obtain ⟨entries, _⟩ := t
  obtain ⟨entries', _⟩ := t'
  have equal : entries = entries' := Array.ext_getElem? same
  subst equal
  rfl

theorem get?_isSome : (t.get? (.declared n)).isSome ↔ n < t.size := by
  simp [get?, size]

theorem draft?_lt (stands : t.draft? n = some d) : n < t.size := by
  rw [← get?_isSome]
  unfold draft? at stands
  cases found : t.get? (.declared n) with
  | none => rw [found] at stands; cases stands
  | some e => rfl

theorem parent_lt {outer : Ref} (stands : t.parent (.declared n) = some outer) : n < t.size := by
  rw [← get?_isSome]
  unfold parent at stands
  cases found : t.get? (.declared n) with
  | none => rw [found] at stands; cases stands
  | some e => rfl

theorem draft?_push : (t.push p d).draft? n = if n = t.size then some d else t.draft? n := by
  unfold draft?
  rw [get?_push]
  split
  · rfl
  · cases t.get? (.declared n) with
    | none => rfl
    | some e => simp only [Option.map_some]; split <;> rfl

theorem parent_push : (t.push p d).parent (.declared n) =
    if n = t.size then some (.declared p) else t.parent (.declared n) := by
  unfold parent
  rw [get?_push]
  split
  · rfl
  · cases t.get? (.declared n) with
    | none => rfl
    | some e => simp only [Option.map_some, Option.bind_some]; split <;> rfl

theorem children_push (inside : p < t.size) : (t.push p d).children (.declared n) =
    t.children (.declared n) ++ if n = p then [.declared t.size] else [] := by
  unfold children
  rw [get?_push]
  split
  · next last =>
    have outside : t.get? (.declared n) = none := by
      rw [← Option.not_isSome_iff_eq_none, get?_isSome]
      omega
    have other : n ≠ p := by omega
    simp [outside, other]
  · cases found : t.get? (.declared n) with
    | none =>
      have other : n ≠ p := by
        rintro rfl
        rw [← get?_isSome, found] at inside
        cases inside
      simp [other]
    | some e => simp only [Option.map_some, Option.getD_some]; split <;> simp

@[simp] theorem draft?_modify :
    (t.modify k f).draft? n = if n = k then (t.draft? n).map f else t.draft? n := by
  unfold draft?
  rw [get?_modify]
  cases t.get? (.declared n) with
  | none => simp
  | some e => simp only [Option.map_some]; split <;> rfl

@[simp] theorem parent_modify : (t.modify k f).parent (.declared n) = t.parent (.declared n) := by
  unfold parent
  rw [get?_modify]
  cases t.get? (.declared n) with
  | none => rfl
  | some e => simp only [Option.map_some, Option.bind_some]; split <;> rfl

@[simp] theorem children_modify :
    (t.modify k f).children (.declared n) = t.children (.declared n) := by
  unfold children
  rw [get?_modify]
  cases t.get? (.declared n) with
  | none => rfl
  | some e => simp only [Option.map_some, Option.getD_some]; split <;> rfl

-- A change of the entry that was just added could have been made before.
theorem modify_push : (t.push p d).modify t.size f = t.push p (f d) := by
  apply ext_get?
  intro n
  rw [get?_modify, get?_push, get?_push]
  by_cases last : n = t.size
  · simp [last]
  · simp [last, Function.comp_def]

-- The entries that stand in the entry `p`.
def inside (t : Tree) (p : Nat) : List Nat :=
  (List.range t.size).filter fun n => t.parent (.declared n) = some (.declared p)

structure Nested (t : Tree) : Prop where
  root : t.parent Ref.root = none
  parents : ∀ n, 0 < n → n < t.size → ∃ p < n, t.parent (.declared n) = some (.declared p)
  children : ∀ p, t.children (.declared p) =
    (if p = 0 then Primitive.all.map Ref.primitive else []) ++ (t.inside p).map .declared

theorem inside_push :
    (t.push p d).inside n = t.inside n ++ if n = p then [t.size] else [] := by
  unfold inside
  rw [size_push, List.range_succ, List.filter_append]
  congr 1
  · apply List.filter_congr
    intro m earlier
    have other : m ≠ t.size := Nat.ne_of_lt (List.mem_range.1 earlier)
    rw [parent_push, if_neg other]
  · by_cases same : n = p
    · simp [parent_push, same]
    · simp [parent_push, same, Ne.symm same]

theorem inside_modify : (t.modify k f).inside n = t.inside n := by
  simp only [inside, size_modify, parent_modify]

theorem nested_empty : Nested empty where
  root := rfl
  parents n positive small := by
    have := Nat.lt_of_lt_of_le small (Nat.le_refl 1)
    omega
  children p := by
    cases p <;> rfl

namespace Nested

variable (nested : Nested t)

include nested

theorem push (within : p < t.size) : Nested (t.push p d) where
  root := by
    have old : 0 ≠ t.size := Nat.ne_of_lt t.rooted
    rw [Ref.root, parent_push, if_neg old]
    exact nested.root
  parents n positive small := by
    rw [parent_push]
    split
    · next last => exact ⟨p, last ▸ within, rfl⟩
    · rw [size_push] at small
      exact nested.parents n positive (by omega)
  children n := by
    rw [children_push within, inside_push, nested.children, List.map_append, List.append_assoc]
    congr 2
    split <;> rfl

theorem modify : Nested (t.modify k f) where
  root := by
    rw [Ref.root, parent_modify]
    exact nested.root
  parents n positive small := by
    rw [parent_modify]
    exact nested.parents n positive (by simpa using small)
  children n := by
    rw [children_modify, inside_modify, nested.children]

-- Entries that were added one after the other into one scope stand beside each other.
theorem siblings (first : t.parent (.declared n) = some (.declared p))
    (second : t.parent (.declared (n + 1)) = some (.declared p)) :
    ∃ before after, t.children (.declared p) =
      before ++ .declared n :: .declared (n + 1) :: after := by
  have small := parent_lt second
  obtain ⟨others, count⟩ : ∃ others, t.size = n + (others + 2) := ⟨t.size - n - 2, by omega⟩
  have numbers : List.range t.size =
      List.range n ++ n :: (n + 1) :: (List.range others).map (n + 2 + ·) := by
    rw [count, List.range_add, List.range_succ_eq_map, List.range_succ_eq_map]
    simp [Function.comp_def, Nat.add_comm, Nat.add_left_comm]
  rw [nested.children, inside, numbers]
  simp only [List.filter_append, List.filter_cons, first, second, decide_true, if_true,
    List.map_append, List.map_cons, ← List.append_assoc]
  exact ⟨_, _, rfl⟩

end Nested

end Frontend.Scope.Tree
