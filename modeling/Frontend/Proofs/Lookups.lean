import Frontend.Scope.Lookup
import Frontend.Proofs.Edits
import Mathlib.Data.List.Find

-- What is found in a tree, and that an entry that does not fit leaves it as it is.

namespace Frontend.Scope.Tree

variable {t t' : Tree} {p n : Nat} {d : Draft} {s id child outer : Ref} {fits : Entry → Bool}

-- What is found fits.
theorem find_fits (found : t.find fits s = some id) : ∃ e, t.get? id = some e ∧ fits e = true := by
  obtain ⟨scope, -, inScope⟩ := List.exists_of_findSome?_eq_some found
  have fit := List.find?_some inScope
  cases entry : t.get? id with
  | none => rw [entry] at fit; cases fit
  | some e => exact ⟨e, rfl, by simpa [entry] using fit⟩

theorem contains_declared : t.contains (.declared n) ↔ n < t.size := get?_isSome

namespace Nested

variable (nested : Nested t)

include nested

-- No reference of a nested tree leads outside of it.
theorem contains_parent (stands : t.parent s = some outer) : t.contains outer := by
  cases s with
  | builtin which =>
    cases which with
    | type primitive => cases stands; exact contains_declared.2 t.rooted
    | integerAdd => cases stands; rfl
  | declared n =>
    have small := parent_lt stands
    cases n with
    | zero => cases nested.root.symm.trans stands
    | succ n =>
      obtain ⟨p, earlier, same⟩ := nested.parents _ (Nat.succ_pos n) small
      rw [same] at stands
      cases stands
      exact contains_declared.2 (by omega)

theorem contains_child (stands : child ∈ t.children s) : t.contains child := by
  cases s with
  | builtin which =>
    have known : ∀ child ∈ which.entry.children, child = .builtin .integerAdd := by
      rcases which with ⟨_ | _ | _ | _⟩ | _ <;> decide
    rw [known child stands]
    rfl
  | declared n =>
    rw [nested.children, List.mem_append] at stands
    rcases stands with primitive | entry
    · split at primitive
      · obtain ⟨_, -, rfl⟩ := List.mem_map.1 primitive
        rfl
      · cases primitive
    · obtain ⟨m, within, rfl⟩ := List.mem_map.1 entry
      rw [inside, List.mem_filter, List.mem_range] at within
      exact contains_declared.2 within.1

end Nested

theorem scopes_self (t : Tree) (s : Ref) : ∃ outer, t.scopes s = s :: outer := by
  rw [scopes]
  split
  · exact ⟨_, rfl⟩
  · split <;> exact ⟨_, rfl⟩

-- The way up is the same where all the parents on it are.
theorem scopes_same {P : Ref → Prop} (closed : ∀ s outer, P s → t.parent s = some outer → P outer)
    (same : ∀ s, P s → t'.parent s = t.parent s) (s : Ref) (inside : P s) : t'.scopes s = t.scopes s := by
  rw [scopes, scopes, same s inside]
  cases stands : t.parent s with
  | none => rfl
  | some outer =>
    dsimp only
    split
    · rw [scopes_same closed same outer (closed s outer inside stands)]
    · rfl
termination_by s.rank

-- The scopes around `s` that come before `outer`, from the inside to the outside.
def nearer (t : Tree) (s outer : Ref) : List Ref := (t.scopes s).takeWhile (· ≠ outer)

-- A search through a list in which the answer at one place is a new one.
theorem findSome?_override {α β : Type} [DecidableEq α] {f g : α → Option β} {q : α} {k : β}
    (here : g q = some k) (there : ∀ x, x ≠ q → g x = f x) (xs : List α) : xs.findSome? g =
      if q ∈ xs ∧ ∀ x ∈ xs.takeWhile (· ≠ q), f x = none then some k else xs.findSome? f := by
  induction xs with
  | nil => rfl
  | cons x xs ih =>
    by_cases same : x = q
    · subst same
      simp [here]
    · rw [List.findSome?_cons, there x same, ih]
      cases found : f x with
      | none => simp [same, found, Ne.symm same]
      | some y => simp [same, found, Ne.symm same]

theorem get?_push_known (known : t.contains s) : ((t.push p d).get? s).map Entry.toDraft =
    (t.get? s).map Entry.toDraft := by
  cases s with
  | builtin which => rfl
  | declared n =>
    have old : n ≠ t.size := Nat.ne_of_lt (contains_declared.1 known)
    exact draft?_push.trans (if_neg old)

theorem parent_push_known (known : t.contains s) : (t.push p d).parent s = t.parent s := by
  cases s with
  | builtin which => rfl
  | declared n =>
    have old : n ≠ t.size := Nat.ne_of_lt (contains_declared.1 known)
    rw [parent_push, if_neg old]

section Push

variable (nested : Nested t)

include nested

theorem scopes_push (s : Ref) (known : t.contains s) : (t.push p d).scopes s = t.scopes s :=
  scopes_same (P := (t.contains · = true)) (fun _ _ _ => nested.contains_parent) (fun _ => parent_push_known) s known

-- Whether the entry fits is decided by what it is, not by where it stands.
theorem findChild_push (within : p < t.size) {fits : Draft → Bool} :
    (t.push p d).findChild (fits ·.toDraft) s =
      if s = .declared p ∧ fits d = true then some (.declared t.size) else t.findChild (fits ·.toDraft) s := by
  have any_draft (t : Tree) (r : Ref) :
      (t.get? r).any (fits ·.toDraft) = ((t.get? r).map Entry.toDraft).any fits := by
    cases t.get? r <;> rfl
  have old : (t.children s).reverse.find? (fun child => ((t.push p d).get? child).any (fits ·.toDraft)) =
      t.findChild (fits ·.toDraft) s := by
    unfold findChild
    apply List.find?_congr
    intro child stands
    rw [any_draft, any_draft, get?_push_known (nested.contains_child (List.mem_reverse.1 stands))]
  cases s with
  | builtin which => exact old.trans (if_neg fun both => nomatch both.1).symm
  | declared n =>
    have new : ((t.push p d).get? (.declared t.size)).any (fits ·.toDraft) = fits d := by
      rw [get?_push, if_pos rfl]
      rfl
    rw [findChild, children_push within]
    by_cases same : n = p
    · rw [if_pos same, List.reverse_append, List.reverse_singleton, List.singleton_append, List.find?_cons,
        new, same]
      subst same
      cases fits d with
      | true => exact (if_pos ⟨rfl, rfl⟩).symm
      | false => exact old.trans (if_neg fun both => nomatch both.2).symm
    · rw [if_neg same, List.append_nil, if_neg fun both => same (Ref.declared.inj both.1)]
      exact old

-- The new entry is found where it fits and no nearer scope has an entry that does.
theorem find_push (within : p < t.size) (known : t.contains s) (fits : Draft → Bool) :
    (t.push p d).find (fits ·.toDraft) s =
      if fits d = true ∧ .declared p ∈ t.scopes s ∧
          ∀ scope ∈ t.nearer s (.declared p), t.findChild (fits ·.toDraft) scope = none
        then some (.declared t.size) else t.find (fits ·.toDraft) s := by
  rw [find, scopes_push nested s known]
  by_cases fit : fits d = true
  · have here : (t.push p d).findChild (fits ·.toDraft) (.declared p) = some (.declared t.size) := by
      rw [findChild_push nested within, if_pos ⟨rfl, fit⟩]
    have there (scope : Ref) (other : scope ≠ .declared p) :
        (t.push p d).findChild (fits ·.toDraft) scope = t.findChild (fits ·.toDraft) scope := by
      rw [findChild_push nested within, if_neg fun both => other both.1]
    rw [findSome?_override here there]
    simp only [fit, true_and]
    rfl
  · rw [if_neg fun all => fit all.1, find]
    congr 1
    funext scope
    rw [findChild_push nested within, if_neg fun both => fit both.2]

theorem findType_push (within : p < t.size) (noType : d.kind.isType = false) (known : t.contains s)
    (name : String) : (t.push p d).findType s name = t.findType s name := by
  refine (find_push nested within known fun d => d.kind.isType && d.name == name).trans (if_neg fun all => ?_)
  rw [noType] at all
  cases all.1

end Push

end Frontend.Scope.Tree
