import Frontend.Proofs.Structure

-- The entries of a program are numbered in the order of the walk through its scope tree.  Each entry is
-- entered into one of the scopes around the entry before it, so that nothing is entered into a scope that was
-- left.

namespace Frontend

open Scope (Branch Draft Primitive Ref Tree)
open Scope.Tree

namespace Scope.Tree

variable {t t' : Tree} {p k m n : Nat} {a b s : Ref} {d : Draft} {f : Draft → Draft}

theorem mem_scopes_self (s : Ref) : s ∈ t.scopes s := by
  obtain ⟨outer, first⟩ := scopes_self t s
  rw [first]
  exact List.mem_cons_self

theorem scopes_modify : (t.modify k f).scopes s = t.scopes s := by
  refine scopes_same (P := fun _ => True) (fun _ _ _ _ => trivial) (fun s _ => ?_) s trivial
  cases s with
  | builtin which => rfl
  | declared n => exact parent_modify

namespace Nested

variable (nested : Nested t)

include nested

-- The scopes around a scope are around everything in it.
theorem scopes_suffix (b : Ref) (around : a ∈ t.scopes b) : t.scopes a <:+ t.scopes b := by
  cases stands : t.parent b with
  | none =>
    rw [scopes_top stands, List.mem_singleton] at around
    rw [around]
  | some outer =>
    have lower := nested.rank_lt stands
    rw [nested.scopes_up stands] at around ⊢
    rcases List.mem_cons.1 around with rfl | above
    · rw [nested.scopes_up stands]
    · exact (scopes_suffix outer above).trans (List.suffix_cons b _)
termination_by b.rank

theorem scopes_trans (inner : a ∈ t.scopes b) (outer : s ∈ t.scopes a) : s ∈ t.scopes b :=
  (nested.scopes_suffix b inner).subset outer

theorem parent_mem_scopes (inner : a ∈ t.scopes b) (stands : t.parent a = some s) : s ∈ t.scopes b := by
  refine nested.scopes_trans inner ?_
  rw [nested.scopes_up stands]
  exact List.mem_cons_of_mem _ (mem_scopes_self s)

end Nested

-- Each entry stands in a scope around the entry before it, or in that entry.
def DepthFirst (t : Tree) : Prop :=
  ∀ m s, t.parent (.declared (m + 1)) = some s → s ∈ t.scopes (.declared m)

-- The scope is around the last entry.
def Open (t : Tree) (scope : Nat) : Prop :=
  ∀ last, t.size = last + 1 → .declared scope ∈ t.scopes (.declared last)

theorem depthFirst_empty : empty.DepthFirst := by
  intro m s stands
  have small := parent_lt stands
  cases small with
  | step impossible => cases impossible

theorem open_empty : empty.Open 0 := by
  intro last size
  cases size
  exact mem_scopes_self _

theorem DepthFirst.push (depthFirst : t.DepthFirst) (nested : Nested t) (place : t.Open p) :
    (t.push p d).DepthFirst := by
  intro m s stands
  have small := parent_lt stands
  rw [size_push] at small
  have known : t.contains (.declared m) := contains_declared.2 (by omega)
  rw [scopes_push nested _ known]
  rw [parent_push] at stands
  split at stands
  · next last =>
    cases stands
    exact place m last.symm
  · exact depthFirst m s stands

theorem open_pushed : (t.push p d).Open t.size := by
  intro last size
  rw [size_push] at size
  cases size
  exact mem_scopes_self _

-- When what stands in an entry has been entered, the scope of the entry is around the last one still.
theorem Open.outer (inner : t.Open n) (nested : Nested t)
    (stands : t.parent (.declared n) = some (.declared p)) : t.Open p :=
  fun last size => nested.parent_mem_scopes (inner last size) stands

theorem DepthFirst.modify (depthFirst : t.DepthFirst) : (t.modify k f).DepthFirst := by
  intro m s stands
  rw [parent_modify] at stands
  rw [scopes_modify]
  exact depthFirst m s stands

theorem Open.modify (place : t.Open p) : (t.modify k f).Open p := by
  intro last size
  rw [scopes_modify]
  exact place last (by rwa [size_modify] at size)

-- What lies between an entry and something in it is in it too.
theorem DepthFirst.between (depthFirst : t.DepthFirst) (nested : Nested t) (first : n ≤ m) (second : m ≤ k)
    (around : .declared n ∈ t.scopes (.declared k)) : .declared n ∈ t.scopes (.declared m) := by
  induction second with
  | refl => exact around
  | @step k later ih =>
    have other : Ref.declared n ≠ .declared (k + 1) := by
      rintro ⟨⟩
      exact absurd (Nat.le_trans first later) (Nat.not_succ_le_self k)
    apply ih
    cases stands : t.parent (.declared (k + 1)) with
    | none =>
      rw [scopes_top stands, List.mem_singleton] at around
      exact absurd around other
    | some outer =>
      rw [nested.scopes_up stands] at around
      exact nested.scopes_trans (depthFirst k outer stands) ((List.mem_cons.1 around).resolve_left other)

theorem Walk.mem_numbers {b : Branch} (walk : Walk t n b) (nested : Nested t) :
    m ∈ b.numbers ↔ .declared n ∈ t.scopes (.declared m) := by
  rw [← List.count_pos_iff, ← List.count_pos_iff, walk.count nested m]

theorem Walks.mem_numbers (nested : Nested t) : ∀ {children : List Ref} {branches : List Branch},
    Walks t children branches → m ∈ Branch.numbersAll branches →
    ∃ c, .declared c ∈ children ∧ .declared c ∈ t.scopes (.declared m)
  | _, _, .nil, member => by
    rw [Branch.numbersAll] at member
    cases member
  | _, _, .builtin others, member => by
    obtain ⟨c, listed, around⟩ := others.mem_numbers nested member
    exact ⟨c, List.mem_cons_of_mem _ listed, around⟩
  | _, _, .declared (n := c) first others, member => by
    rw [Branch.numbersAll, List.mem_append] at member
    rcases member with here | later
    · exact ⟨c, List.mem_cons_self, (first.mem_numbers nested).1 here⟩
    · obtain ⟨c, listed, around⟩ := others.mem_numbers nested later
      exact ⟨c, List.mem_cons_of_mem _ listed, around⟩

-- The declared ones among the children stand in the entry `p`, in the order of their numbers.
structure Listed (t : Tree) (p : Nat) (children : List Ref) : Prop where
  parent : ∀ c, .declared c ∈ children → t.parent (.declared c) = some (.declared p)
  order : children.Pairwise fun a b => ∀ m n, a = .declared m → b = .declared n → m < n

theorem Listed.tail {r : Ref} {children : List Ref} (listed : Listed t p (r :: children)) :
    Listed t p children :=
  ⟨fun c member => listed.parent c (List.mem_cons_of_mem _ member), listed.order.tail⟩

theorem Nested.listed (nested : Nested t) (p : Nat) : Listed t p (t.children (.declared p)) where
  parent c member := nested.mem_children.1 member
  order := by
    rw [nested.children, List.pairwise_append]
    refine ⟨?_, List.pairwise_map.2 ?_, ?_⟩
    · split
      · exact List.pairwise_map.2 (List.pairwise_of_forall fun _ _ _ _ same => by cases same)
      · exact .nil
    · refine (List.pairwise_lt_range.filter _).imp ?_
      rintro m n less _ _ ⟨⟩ ⟨⟩
      exact less
    · rintro a member _ - m n rfl
      split at member
      · obtain ⟨_, -, same⟩ := List.mem_map.1 member
        cases same
      · cases member

mutual

theorem Walk.sorted (nested : Nested t) (depthFirst : t.DepthFirst) :
    ∀ {n : Nat} {b : Branch}, Walk t n b → b.numbers.Pairwise (· < ·)
  | n, _, .node found below => by
    have listed := nested.listed n
    rw [children_of_get? found] at listed
    rw [Branch.numbers, List.pairwise_cons]
    refine ⟨fun m member => ?_, below.sorted nested depthFirst listed⟩
    obtain ⟨c, among, around⟩ := below.mem_numbers nested member
    have later := nested.rank_lt (listed.parent c among)
    exact Nat.lt_of_lt_of_le later ((nested.climb_scopes _).rank_le nested _ around)

theorem Walks.sorted (nested : Nested t) (depthFirst : t.DepthFirst) {p : Nat} :
    ∀ {children : List Ref} {branches : List Branch}, Walks t children branches →
    Listed t p children → (Branch.numbersAll branches).Pairwise (· < ·)
  | _, _, .nil, _ => by
    rw [Branch.numbersAll]
    exact .nil
  | _, _, .builtin others, listed => others.sorted nested depthFirst listed.tail
  | _, _, .declared (n := c) first others, listed => by
    rw [Branch.numbersAll, List.pairwise_append]
    refine ⟨first.sorted nested depthFirst, others.sorted nested depthFirst listed.tail, ?_⟩
    intro m inFirst m' inOthers
    obtain ⟨c', among, around'⟩ := others.mem_numbers nested inOthers
    have around := (first.mem_numbers nested).1 inFirst
    have order : c < c' := (List.pairwise_cons.1 listed.order).1 _ among c c' rfl rfl
    have behind : c' ≤ m' := (nested.climb_scopes _).rank_le nested _ around'
    -- Otherwise the later child would lie between the first one and something in it.
    apply Nat.lt_of_not_le
    intro late
    have inside := depthFirst.between nested order.le (behind.trans late) around
    rw [nested.scopes_up (listed.parent c' (List.mem_cons_of_mem _ among))] at inside
    rcases List.mem_cons.1 inside with same | above
    · cases same
      exact Nat.lt_irrefl _ order
    · have low : c ≤ p := (nested.climb_scopes _).rank_le nested _ above
      have high : p < c := nested.rank_lt (listed.parent c List.mem_cons_self)
      exact Nat.lt_irrefl _ (low.trans_lt high)

end

theorem DepthFirst.preorder (depthFirst : t.DepthFirst) (nested : Nested t) :
    t.preorder = List.range t.size := by
  have sorted := (nested.walk_branch 0 t.rooted).sorted nested depthFirst
  exact nested.preorder_perm.eq_of_pairwise (fun _ _ _ _ less less' => absurd less (Nat.lt_asymm less'))
    sorted List.pairwise_lt_range

end Scope.Tree

namespace Typing

variable {task : Task} {scope : Nat} {t t' : Tree}

theorem Enters.depthFirst (enters : Enters task scope t t') (within : scope < t.size) (nested : Nested t)
    (depthFirst : t.DepthFirst) (place : t.Open scope) : t'.DepthFirst ∧ t'.Open scope := by
  induction enters with
  | none | memberless | bodyEnd => exact ⟨depthFirst, place⟩
  | more first _ ih ih' | bodyBinding first _ ih ih' =>
    obtain ⟨between, place⟩ := ih within nested depthFirst place
    exact ih' (Nat.lt_of_lt_of_le within first.kept.size) (first.nested within nested) between place
  | enumeration inner ih | classDecl inner ih =>
    have nested' := fun d => nested.push (d := d) within
    obtain ⟨after, place⟩ := ih (by simp) (nested' _) (depthFirst.push nested place) open_pushed
    exact ⟨after, place.outer (inner.nested (by simp) (nested' _)) inner.kept.parent_pushed⟩
  | member _ inner ih =>
    have nested' := fun d => nested.push (d := d) within
    exact ih (within_push within) (nested' _) (depthFirst.push nested place)
      (open_pushed.outer (nested' _) Kept.refl.parent_pushed)
  | plain =>
    exact ⟨depthFirst.push nested place, open_pushed.outer (nested.push within) Kept.refl.parent_pushed⟩
  | accessor _ _ _ inner _ ih =>
    have nested' := fun d => nested.push (d := d) within
    obtain ⟨after, place⟩ := ih (within_push within) (nested' _) (depthFirst.push nested place)
      (open_pushed.outer (nested' _) Kept.refl.parent_pushed)
    exact ⟨after.modify, place.modify⟩
  | function _ _ inner ih =>
    have nested' := fun d => nested.push (d := d) within
    obtain ⟨after, place⟩ := ih (by simp) (nested' _) (depthFirst.push nested place) open_pushed
    have outer := place.outer (inner.nested (by simp) (nested' _)) inner.kept.parent_pushed
    exact ⟨after.modify, outer.modify⟩
  | standing _ ih | bodyReturn _ _ _ ih => exact ih within nested depthFirst place

end Typing

end Frontend
