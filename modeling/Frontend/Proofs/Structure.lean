import Frontend.Scope.Outline
import Frontend.Proofs.Lookups
import Frontend.Proofs.Growth
import Mathlib

-- The shape of scope trees.  A tree says twice what stands where: an entry names its parent, and the parent
-- lists its children.  In a nested tree the two agree, so that the way up from any entry ends at the root, and
-- the way down from the root meets every entry once.

namespace Frontend.Scope.Tree

open Text (Line)

-- What additions and changes of entries make of the empty tree.  A copy of a tree is that tree.
inductive Grown : Tree → Prop where
  | empty : Grown empty
  | add {t t' : Tree} {parent id : Ref} {d : Draft} : Grown t → t.add parent d = .ok (id, t') → Grown t'
  | edit {t t' : Tree} {id : Ref} {f : Draft → Draft} : Grown t → t.edit id f = .ok t' → Grown t'

-- From an entry to its parent, over and over, until there is none.
inductive Climb (t : Tree) : Ref → List Ref → Prop where
  | top {id : Ref} : t.parent id = none → Climb t id [id]
  | up {id outer : Ref} {ids : List Ref} :
      t.parent id = some outer → Climb t outer ids → Climb t id (id :: ids)

mutual

-- From an entry to its children, built-in ones left out, by nothing but their lists.
inductive Walk (t : Tree) : Nat → Branch → Prop where
  | node {n : Nat} {e : Entry} {branches : List Branch} :
      t.get? (.declared n) = some e → Walks t e.children branches → Walk t n (.node n e branches)

inductive Walks (t : Tree) : List Ref → List Branch → Prop where
  | nil : Walks t [] []
  | builtin {which : Builtin} {children : List Ref} {branches : List Branch} :
      Walks t children branches → Walks t (.builtin which :: children) branches
  | declared {n : Nat} {b : Branch} {children : List Ref} {branches : List Branch} :
      Walk t n b → Walks t children branches → Walks t (.declared n :: children) (b :: branches)

end

variable {t : Tree} {n m : Nat} {id outer : Ref} {e : Entry} {children ids : List Ref} {b : Branch}
  {branches : List Branch}

theorem editable_lt (ok : t.editable id = .ok n) : n < t.size := by
  cases id with
  | builtin which => cases ok
  | declared m =>
    rw [editable] at ok
    split at ok
    · next within => cases ok; exact within
    · cases ok

theorem Grown.nested (grown : Grown t) : Nested t := by
  induction grown with
  | empty => exact nested_empty
  | add _ added nested =>
    obtain ⟨n, editable, pushed⟩ := Typing.bind_eq_ok.1 added
    cases pushed
    exact nested.push (editable_lt editable)
  | edit _ edited nested =>
    obtain ⟨n, -, modified⟩ := Typing.bind_eq_ok.1 edited
    cases modified
    exact nested.modify

theorem scopes_top (top : t.parent id = none) : t.scopes id = [id] := by
  rw [scopes, top]

namespace Nested

variable (nested : Nested t)

include nested

theorem rank_lt (stands : t.parent id = some outer) : outer.rank < id.rank := by
  cases id with
  | builtin which =>
    cases which with
    | type primitive => cases stands; exact Nat.zero_lt_one
    | integerAdd => cases stands; exact Nat.one_lt_two
  | declared n =>
    cases n with
    | zero => cases nested.root.symm.trans stands
    | succ n =>
      obtain ⟨p, earlier, same⟩ := nested.parents _ (Nat.succ_pos n) (parent_lt stands)
      cases same.symm.trans stands
      exact earlier

theorem scopes_up (stands : t.parent id = some outer) : t.scopes id = id :: t.scopes outer := by
  rw [scopes, stands]
  exact if_pos (nested.rank_lt stands)

-- Only the root has no parent.
theorem top_eq_root (known : t.contains id) (top : t.parent id = none) : id = Ref.root := by
  cases id with
  | builtin which => rcases which with _ | _ <;> cases top
  | declared n =>
    cases n with
    | zero => rfl
    | succ n =>
      obtain ⟨p, -, stands⟩ := nested.parents _ (Nat.succ_pos n) (contains_declared.1 known)
      cases top.symm.trans stands

theorem climb_scopes (id : Ref) : Climb t id (t.scopes id) := by
  cases stands : t.parent id with
  | none =>
    rw [scopes_top stands]
    exact .top stands
  | some outer =>
    rw [nested.scopes_up stands]
    have := nested.rank_lt stands
    exact .up stands (climb_scopes outer)
termination_by id.rank

end Nested

namespace Climb

theorem rank_le (nested : Nested t) (climb : Climb t id ids) : ∀ scope ∈ ids, scope.rank ≤ id.rank := by
  induction climb with
  | top => simp
  | up stands _ ih =>
    have := nested.rank_lt stands
    simp only [List.mem_cons, forall_eq_or_imp]
    exact ⟨Nat.le_refl _, fun scope above => Nat.le_trans (ih scope above) (Nat.le_of_lt this)⟩

theorem nodup (nested : Nested t) (climb : Climb t id ids) : ids.Nodup := by
  induction climb with
  | top => simp
  | up stands above ih =>
    refine List.nodup_cons.2 ⟨fun again => ?_, ih⟩
    exact Nat.not_le_of_lt (nested.rank_lt stands) (above.rank_le nested _ again)

theorem getLast? (nested : Nested t) (climb : Climb t id ids) (known : t.contains id) :
    ids.getLast? = some Ref.root := by
  induction climb with
  | top top => rw [nested.top_eq_root known top]; rfl
  | up stands above ih =>
    have last := ih (nested.contains_parent stands)
    rw [List.getLast?_cons, last]
    rfl

end Climb

theorem builtin_children_length (which : Builtin) : which.entry.children.length ≤ 1 := by
  rcases which with ⟨_ | _ | _ | _⟩ | _ <;> decide

theorem declared_not_mem_builtin (which : Builtin) : .declared m ∉ which.entry.children := by
  rcases which with ⟨_ | _ | _ | _⟩ | _ <;> simp [Builtin.entry]

namespace Nested

variable (nested : Nested t)

include nested

theorem parent_declared (stands : t.parent (.declared m) = some outer) : ∃ p, outer = .declared p := by
  cases m with
  | zero => cases nested.root.symm.trans stands
  | succ m =>
    obtain ⟨p, -, same⟩ := nested.parents _ (Nat.succ_pos m) (parent_lt stands)
    exact ⟨p, Option.some.inj (stands.symm.trans same)⟩

-- An entry is listed once by its parent, and by nothing else.
theorem count_children (id : Ref) (m : Nat) :
    (t.children id).count (.declared m) = if t.parent (.declared m) = some id then 1 else 0 := by
  cases id with
  | builtin which =>
    have other : t.parent (.declared m) ≠ some (.builtin which) := by
      intro stands
      obtain ⟨p, declared⟩ := nested.parent_declared stands
      cases declared
    rw [if_neg other]
    exact List.count_eq_zero.2 (declared_not_mem_builtin which)
  | declared p =>
    have primitives : (if p = 0 then Primitive.all.map Ref.primitive else []).count (.declared m) = 0 := by
      split <;> simp [Primitive.all, Ref.primitive]
    have injective : Function.Injective Ref.declared := fun _ _ same => Ref.declared.inj same
    rw [nested.children, List.count_append, primitives, Nat.zero_add,
      List.count_map_of_injective _ _ injective, inside]
    by_cases stands : t.parent (.declared m) = some (.declared p)
    · rw [List.count_filter (by simpa using stands), if_pos stands]
      rw [List.nodup_range.count, if_pos (List.mem_range.2 (parent_lt stands))]
    · rw [if_neg stands, List.count_eq_zero]
      simp [stands]

theorem mem_children : .declared m ∈ t.children id ↔ t.parent (.declared m) = some id := by
  rw [← List.count_pos_iff, nested.count_children]
  split <;> simp [*]

end Nested

theorem walks_filterMap (children : List Ref)
    (later : ∀ c, .declared c ∈ children → ∃ within : n < c ∧ c < t.entries.size,
      Walk t c (t.branch c within.2)) :
    Walks t children (children.filterMap fun child =>
      match child with
      | .builtin _ => none
      | .declared c =>
        if within : n < c ∧ c < t.entries.size then some (t.branch c within.2) else none) := by
  induction children with
  | nil => exact .nil
  | cons child children ih =>
    have others := ih fun c listed => later c (List.mem_cons_of_mem _ listed)
    cases child with
    | builtin which => exact .builtin others
    | declared c =>
      obtain ⟨within, walk⟩ := later c List.mem_cons_self
      rw [List.filterMap_cons]
      simp only [dif_pos within]
      exact .declared walk others

namespace Nested

variable (nested : Nested t)

include nested

-- Nothing is cut off by the bounds that make the recursion end.
theorem walk_branch (n : Nat) (inside : n < t.entries.size) : Walk t n (t.branch n inside) := by
  rw [branch]
  refine .node (Array.getElem?_eq_getElem inside) (walks_filterMap _ fun c listed => ?_)
  have stands : t.parent (.declared c) = some (.declared n) := by
    rw [← nested.mem_children, Tree.children]
    simpa [get?, inside] using listed
  have within : n < c ∧ c < t.entries.size := ⟨nested.rank_lt stands, parent_lt stands⟩
  exact ⟨within, walk_branch c within.2⟩
termination_by t.entries.size - n

end Nested

theorem sum_count_nil {α : Type} [DecidableEq α] (xs : List α) :
    (xs.map fun x => ([] : List α).count x).sum = 0 := by
  induction xs with
  | nil => rfl
  | cons x xs ih => rw [List.map_cons, List.sum_cons, ih, List.count_nil]

theorem sum_count_cons {α : Type} [DecidableEq α] (xs ys : List α) (y : α) :
    (xs.map fun x => (y :: ys).count x).sum = xs.count y + (xs.map fun x => ys.count x).sum := by
  induction xs with
  | nil => rfl
  | cons x xs ih =>
    rw [List.map_cons, List.sum_cons, ih, List.count_cons, List.count_cons, List.map_cons, List.sum_cons,
      BEq.comm]
    omega

theorem Nested.builtin_not_mem_scopes (nested : Nested t) (which : Builtin) (m : Nat) :
    .builtin which ∉ t.scopes (.declared m) := by
  induction m using Nat.strongRecOn with
  | ind m ih =>
    cases stands : t.parent (.declared m) with
    | none => simp [scopes_top stands]
    | some outer =>
      obtain ⟨p, rfl⟩ := nested.parent_declared stands
      rw [nested.scopes_up stands]
      simpa using ih p (nested.rank_lt stands)

-- The way down from an entry meets what has the entry on its way up.
theorem Nested.sum_count_scopes (nested : Nested t) (id : Ref) (m : Nat) :
    ((t.children id).map fun child => (t.scopes (.declared m)).count child).sum
      + (if .declared m = id then 1 else 0) = (t.scopes (.declared m)).count id := by
  -- By the way up of `m`: the children of `id` that it meets are those of its parent, and maybe itself.
  induction m using Nat.strongRecOn with
  | ind m ih =>
    cases stands : t.parent (.declared m) with
    | none =>
      rw [scopes_top stands, sum_count_cons, sum_count_nil, nested.count_children, stands]
      simp [List.count_singleton]
    | some outer =>
      obtain ⟨p, rfl⟩ := nested.parent_declared stands
      rw [nested.scopes_up stands, sum_count_cons, nested.count_children, stands, List.count_cons,
        ← ih p (nested.rank_lt stands)]
      simp
      omega

theorem children_of_get? (found : t.get? id = some e) : t.children id = e.children := by
  rw [Tree.children, found]
  rfl

mutual

theorem Walk.count (nested : Nested t) (m : Nat) : ∀ {n : Nat} {b : Branch}, Walk t n b →
    b.numbers.count m = (t.scopes (.declared m)).count (.declared n)
  | n, _, .node found below => by
    rw [Branch.numbers, List.count_cons, below.count nested m, ← children_of_get? found,
      ← nested.sum_count_scopes (.declared n) m]
    simp [@eq_comm _ m]

theorem Walks.count (nested : Nested t) (m : Nat) : ∀ {children : List Ref} {branches : List Branch},
    Walks t children branches → (Branch.numbersAll branches).count m =
      (children.map fun child => (t.scopes (.declared m)).count child).sum
  | _, _, .nil => rfl
  | _, _, @Walks.builtin _ which _ _ others => by
    rw [others.count nested m, List.map_cons, List.sum_cons,
      List.count_eq_zero.2 (nested.builtin_not_mem_scopes which m), Nat.zero_add]
  | _, _, .declared first others => by
    rw [Branch.numbersAll, List.count_append, first.count nested m, others.count nested m,
      List.map_cons, List.sum_cons]

end

theorem Nested.preorder_perm (nested : Nested t) : t.preorder.Perm (List.range t.size) := by
  rw [List.perm_iff_count]
  intro m
  have climb := nested.climb_scopes (.declared m)
  rw [preorder, rootBranch, (nested.walk_branch 0 t.rooted).count nested m, (climb.nodup nested).count,
    List.nodup_range.count]
  simp only [List.mem_range]
  by_cases known : m < t.size
  · have root : .declared 0 ∈ t.scopes (.declared m) :=
      List.mem_of_getLast? (climb.getLast? nested (contains_declared.2 known))
    rw [if_pos known, if_pos root]
  · have top : t.parent (.declared m) = none := by
      cases stands : t.parent (.declared m) with
      | none => rfl
      | some outer => exact absurd (parent_lt stands) known
    have other : m ≠ 0 := by
      rintro rfl
      exact known t.rooted
    rw [if_neg known, scopes_top top]
    simp [other.symm]

-- What is printed for one entry, further to the right the more scopes it stands in.
def ownLines (t : Tree) (n : Nat) : List Line :=
  match t.get? (.declared n) with
  | none => []
  | some e =>
    let depth := (t.scopes (.declared n)).length - 2
    ⟨depth, e.text t⟩ :: e.kind.outlineInit t (depth + 1) ++ e.kind.outlineReturns t (depth + 1)

mutual

theorem Walk.outline_perm (nested : Nested t) : ∀ {n : Nat} {b : Branch} (depth : Nat), Walk t n b →
    (t.scopes (.declared n)).length = depth + 2 →
    (b.outline t depth).Perm (b.numbers.flatMap t.ownLines)
  | n, _, depth, @Walk.node _ _ e _ found below, deep => by
    have others := below.outline_perm nested (depth + 1) fun c listed => by
      rw [← children_of_get? found, nested.mem_children] at listed
      rw [nested.scopes_up listed, List.length_cons, deep]
    have own : t.ownLines n =
        ⟨depth, e.text t⟩ :: e.kind.outlineInit t (depth + 1) ++ e.kind.outlineReturns t (depth + 1) := by
      rw [ownLines, found, deep]
      rfl
    rw [Branch.outline, Branch.numbers, List.flatMap_cons, own, List.append_assoc, List.append_assoc]
    exact (List.perm_append_comm.trans (others.append_left _)).append_left _

theorem Walks.outline_perm (nested : Nested t) : ∀ {children : List Ref} {branches : List Branch}
    (depth : Nat), Walks t children branches →
    (∀ c, .declared c ∈ children → (t.scopes (.declared c)).length = depth + 2) →
    (Branch.outlineAll t depth branches).Perm ((Branch.numbersAll branches).flatMap t.ownLines)
  | _, _, _, .nil, _ => .nil
  | _, _, depth, .builtin others, deep =>
    others.outline_perm nested depth fun c listed => deep c (List.mem_cons_of_mem _ listed)
  | _, _, depth, .declared first others, deep => by
    rw [Branch.outlineAll, Branch.numbersAll, List.flatMap_append]
    exact (first.outline_perm nested depth (deep _ List.mem_cons_self)).append
      (others.outline_perm nested depth fun c listed => deep c (List.mem_cons_of_mem _ listed))

end

theorem Nested.outline_perm (nested : Nested t) : (Branch.outlineAll t 0 t.rootBranch.parts).Perm
    ((List.range t.size).tail.flatMap t.ownLines) := by
  have order := nested.preorder_perm
  have walk : Walk t 0 t.rootBranch := nested.walk_branch 0 t.rooted
  have top : t.scopes (.declared 0) = [.declared 0] := scopes_top nested.root
  have numbers : List.range t.size = 0 :: (List.range t.size).tail := by
    obtain ⟨others, size⟩ := Nat.exists_eq_succ_of_ne_zero (Nat.ne_of_gt t.rooted)
    rw [Tree.size, size, List.range_succ_eq_map, List.tail_cons]
  rw [preorder, numbers] at order
  generalize t.rootBranch = b at order walk
  cases walk with
  | node found below =>
    have deep c (listed : .declared c ∈ t.children (.declared 0)) :
        (t.scopes (.declared c)).length = 0 + 2 := by
      rw [nested.scopes_up (nested.mem_children.1 listed), top]
      rfl
    rw [← children_of_get? found] at below
    exact (below.outline_perm nested 0 deep).trans ((List.Perm.cons_inv order).flatMap_right _)

-- A line of the printed tree: two blanks for each level that it is indented by.
def rendered (line : Line) : String :=
  String.ofList (List.replicate (line.depth * 2) ' ') ++ line.text ++ "\n"

structure Consistent (t : Tree) : Prop where
  -- An entry stands in an earlier one, is listed there once, and is listed nowhere else.
  parent : ∀ n, 0 < n → n < t.size → ∃ p < n, t.parent (.declared n) = some (.declared p) ∧
    (t.children (.declared p)).count (.declared n) = 1 ∧
    ∀ id, .declared n ∈ t.children id → id = .declared p
  -- Children stand in the order of their numbers, behind the types that are built in.
  children : ∀ p, ∃ numbers : List Nat, numbers.Pairwise (· < ·) ∧ t.children (.declared p) =
    (if p = 0 then Primitive.all.map Ref.primitive else []) ++ numbers.map .declared
  builtin : ∀ which, (t.children (.builtin which)).length ≤ 1
  scopes : ∀ id, t.contains id → Climb t id (t.scopes id) ∧ (t.scopes id).Nodup ∧
    (t.scopes id).getLast? = some Ref.root
  preorder : Walk t 0 t.rootBranch ∧ t.preorder.Perm (List.range t.size)
  -- The lines say what the program prints where no entry refers to one of another tree, which has no name here.
  text : ∃ lines : List Line, t.text = String.join (lines.map rendered) ∧
    lines.Perm ((List.range t.size).tail.flatMap t.ownLines)

theorem Nested.consistent (nested : Nested t) : Consistent t where
  parent n positive small := by
    obtain ⟨p, earlier, stands⟩ := nested.parents n positive small
    refine ⟨p, earlier, stands, ?_, fun id listed => ?_⟩
    · rw [nested.count_children, if_pos stands]
    · rw [nested.mem_children, stands] at listed
      exact (Option.some.inj listed).symm
  children p := ⟨t.inside p, List.pairwise_lt_range.filter _, nested.children p⟩
  builtin which := builtin_children_length which
  scopes id known :=
    have climb := nested.climb_scopes id
    ⟨climb, climb.nodup nested, climb.getLast? nested known⟩
  preorder := ⟨nested.walk_branch 0 t.rooted, nested.preorder_perm⟩
  text := ⟨_, rfl, nested.outline_perm⟩

theorem typeProgram_nested {node : Surface.Node} (typed : typeProgram node = .ok t) : Nested t := by
  cases node with
  | root children => exact (Typing.declareAll_enters _ typed).nested empty.rooted nested_empty
  | _ => cases typed

theorem reachable_consistent : (∀ t, Grown t → Consistent t) ∧
    ∀ node t, typeProgram node = .ok t → Consistent t :=
  ⟨fun _ grown => grown.nested.consistent, fun _ _ typed => (typeProgram_nested typed).consistent⟩

theorem renamed_enum_consistent :
    (∃ t, Grown t ∧ t.draft? 2 = some ⟨"F", .enumeration, true⟩ ∧ t.Consistent) ∧
    let node : Surface.Node := .root
      [.classDecl "C" none [.enumeration "E" [.binding ⟨.enumMember, "A", some (.plain "E"),
          some (.literal (.integer 0)), none⟩]],
        .binding ⟨.var, "x", none, some (.literal (.integer 1)), none⟩]
    ∃ t, typeProgram node = .ok t ∧ t.size = 5 ∧ t.Consistent := by
  have grown {t t' t'' : Tree} {id id' : Ref}
      (outer : empty.add Ref.root ⟨"C", .classDecl [], false⟩ = .ok (id, t))
      (inner : t.add id ⟨"E", .enumeration, false⟩ = .ok (id', t'))
      (renamed : t'.edit id' (fun d => { d with name := "F", internal := true }) = .ok t'') : Grown t'' :=
    .edit (.add (.add .empty outer) inner) renamed
  constructor
  · have renamed := grown rfl rfl rfl
    exact ⟨_, renamed, rfl, reachable_consistent.1 _ renamed⟩
  · intro node
    have typed : typeProgram node = .ok _ := rfl
    exact ⟨_, typed, rfl, reachable_consistent.2 _ _ typed⟩

end Frontend.Scope.Tree
