import Frontend.Proofs.Preorder
import Frontend.Proofs.PrintedScopes

-- Branches that agree, seen from the entries that they are made of.  Where the numbers follow the walk through
-- the tree, branches that agree are made of entries with the same numbers.  Entries that a bisimulation
-- relates have branches that agree, as long as none of them is made up.

namespace Frontend.Scope

open Frontend.Scope.Tree

variable {t u : Tree} {m n p : Nat} {a b : Ref} {R : Ref → Ref → Prop}

def Ref.isDeclared : Ref → Bool
  | declared _ => true
  | builtin _ => false

-- The branch of a reference to a declared entry.
def LeadsTo (t : Tree) (r : Ref) (b : Branch) : Prop := ∃ n, r = .declared n ∧ t.Walk n b

theorem Tree.Walks.branches {children : List Ref} {branches : List Branch}
    (walks : Walks t children branches) :
    List.Forall₂ (LeadsTo t) (children.filter Ref.isDeclared) branches := by
  cases walks with
  | nil => exact .nil
  | builtin others => exact others.branches
  | declared first others => exact .cons ⟨_, rfl, first⟩ others.branches

theorem Tree.Walk.branches {b : Branch} (walk : t.Walk n b) :
    List.Forall₂ (LeadsTo t) ((t.children (.declared n)).filter Ref.isDeclared) b.parts := by
  cases walk with
  | node found below =>
    rw [children_of_get? found]
    exact below.branches

theorem stands_of_mem (nested : Nested t) {r : Ref}
    (member : r ∈ (t.children (.declared p)).filter Ref.isDeclared) :
    ∃ n, r = .declared n ∧ t.parent (.declared n) = some (.declared p) := by
  obtain ⟨listed, declared⟩ := List.mem_filter.1 member
  cases r with
  | builtin which => cases declared
  | declared n => exact ⟨n, rfl, nested.mem_children.1 listed⟩

mutual

theorem Branch.shown (nested : Nested t) (shown : ∀ n d, 0 < n → t.draft? n = some d → d.Shown t) :
    ∀ (b : Branch) {n : Nat}, t.Walk n b → 0 < n → b.Shown t
  | .node _ e bs, n, .node found below, positive => by
    refine ⟨shown n _ positive (by rw [draft?, found]; rfl), ?_⟩
    refine Branch.shownAll nested shown bs below.branches fun m member => ?_
    rw [← children_of_get? found] at member
    obtain ⟨_, ⟨⟩, stands⟩ := stands_of_mem nested member
    exact (Nat.zero_le n).trans_lt (nested.rank_lt stands)

theorem Branch.shownAll (nested : Nested t) (shown : ∀ n d, 0 < n → t.draft? n = some d → d.Shown t) :
    ∀ (bs : List Branch) {rs : List Ref}, List.Forall₂ (LeadsTo t) rs bs →
      (∀ n, .declared n ∈ rs → 0 < n) → Branch.ShownAll t bs
  | [], _, _, _ => trivial
  | b :: bs, _, .cons ⟨_, same, walk⟩ others, positive => by
    subst same
    exact ⟨Branch.shown nested shown b walk (positive _ List.mem_cons_self),
      Branch.shownAll nested shown bs others fun n member => positive n (List.mem_cons_of_mem _ member)⟩

end

theorem Tree.shown_parts (nested : Nested t) (shown : ∀ n d, 0 < n → t.draft? n = some d → d.Shown t) :
    Branch.ShownAll t t.rootBranch.parts := by
  refine Branch.shownAll nested shown _ (nested.walk_branch 0 t.rooted).branches fun n member => ?_
  obtain ⟨_, ⟨⟩, stands⟩ := stands_of_mem nested member
  exact nested.rank_lt stands

mutual

theorem Branch.Alike.length : ∀ {b c : Branch}, Branch.Alike t u b c → b.numbers.length = c.numbers.length
  | _, _, .node _ below => by
    rw [Branch.numbers, Branch.numbers, List.length_cons, List.length_cons, below.length]

theorem Branch.AlikeAll.length : ∀ {bs cs : List Branch}, Branch.AlikeAll t u bs cs →
    (Branch.numbersAll bs).length = (Branch.numbersAll cs).length
  | _, _, .nil => rfl
  | _, _, .cons first others => by
    rw [Branch.numbersAll, Branch.numbersAll, List.length_append, List.length_append, first.length,
      others.length]

end

-- The entries with the number `n` stand in the same scope and agree.
def SameAt (t u : Tree) (n : Nat) : Prop :=
  t.parent (.declared n) = u.parent (.declared n) ∧
    ∃ d d', t.draft? n = some d ∧ u.draft? n = some d' ∧ d.Alike t u d'

mutual

theorem Branch.Alike.sameAt (nested : Nested t) (nested' : Nested u) : ∀ {b c : Branch},
    Branch.Alike t u b c → ∀ {m n : Nat}, t.Walk m b → u.Walk n c → b.numbers = c.numbers →
    t.parent (.declared m) = u.parent (.declared n) → ∀ k ∈ b.numbers, SameAt t u k
  | _, _, .node alike below, m, n, .node found walks, .node found' walks', same, parents => by
    rw [Branch.numbers, Branch.numbers] at same
    obtain ⟨rfl, others⟩ := List.cons.inj same
    rw [Branch.numbers]
    refine List.forall_mem_cons.2 ⟨⟨parents, _, _, by rw [draft?, found]; rfl,
      by rw [draft?, found']; rfl, alike⟩, ?_⟩
    refine below.sameAt nested nested' walks.branches walks'.branches (p := m) ?_ ?_ others
    · rw [← children_of_get? found]
      exact fun r => stands_of_mem nested
    · rw [← children_of_get? found']
      exact fun r => stands_of_mem nested'

theorem Branch.AlikeAll.sameAt (nested : Nested t) (nested' : Nested u) : ∀ {bs cs : List Branch},
    Branch.AlikeAll t u bs cs → ∀ {rs ss : List Ref}, List.Forall₂ (LeadsTo t) rs bs →
    List.Forall₂ (LeadsTo u) ss cs → ∀ {p : Nat},
    (∀ r ∈ rs, ∃ n, r = .declared n ∧ t.parent (.declared n) = some (.declared p)) →
    (∀ s ∈ ss, ∃ n, s = .declared n ∧ u.parent (.declared n) = some (.declared p)) →
    Branch.numbersAll bs = Branch.numbersAll cs → ∀ k ∈ Branch.numbersAll bs, SameAt t u k
  | _, _, .nil, _, _, _, _, _, _, _, _ => by
    rw [Branch.numbersAll]
    exact List.forall_mem_nil _
  | _, _, .cons first others, _, _, .cons ⟨_, same, walk⟩ rest, .cons ⟨_, same', walk'⟩ rest', p, inside,
    inside', numbers => by
    subst same same'
    rw [List.forall_mem_cons] at inside inside'
    obtain ⟨⟨_, ⟨⟩, stands⟩, inside⟩ := inside
    obtain ⟨⟨_, ⟨⟩, stands'⟩, inside'⟩ := inside'
    rw [Branch.numbersAll, Branch.numbersAll] at numbers
    obtain ⟨here, behind⟩ := List.append_inj numbers first.length
    rw [Branch.numbersAll]
    exact List.forall_mem_append.2 ⟨first.sameAt nested nested' walk walk' here (stands.trans stands'.symm),
      others.sameAt nested nested' rest rest' inside inside' behind⟩

end

theorem Tree.preorder_parts (nested : Nested t) :
    t.preorder = 0 :: Branch.numbersAll t.rootBranch.parts := by
  have walk := nested.walk_branch 0 t.rooted
  rw [preorder, rootBranch]
  cases walk' : t.branch 0 t.rooted with
  | node n e bs =>
    rw [walk'] at walk
    cases walk
    rw [Branch.numbers, Branch.parts]

theorem Tree.sameAt (nested : Nested t) (nested' : Nested u) (depthFirst : t.DepthFirst)
    (depthFirst' : u.DepthFirst) (alike : Branch.AlikeAll t u t.rootBranch.parts u.rootBranch.parts) :
    t.size = u.size ∧ ∀ n, 0 < n → n < t.size → SameAt t u n := by
  have order := (preorder_parts nested).symm.trans (depthFirst.preorder nested)
  have order' := (preorder_parts nested').symm.trans (depthFirst'.preorder nested')
  have sizes : t.size = u.size := by
    rw [← List.length_range (n := t.size), ← order, List.length_cons, alike.length, ← List.length_cons,
      order', List.length_range]
  have numbers : Branch.numbersAll t.rootBranch.parts = Branch.numbersAll u.rootBranch.parts := by
    rw [← sizes, ← order] at order'
    exact (List.cons.inj order').2.symm
  refine ⟨sizes, fun n positive small => ?_⟩
  have member : n ∈ 0 :: Branch.numbersAll t.rootBranch.parts := by rwa [order, List.mem_range]
  exact alike.sameAt nested nested' (nested.walk_branch 0 t.rooted).branches
    (nested'.walk_branch 0 u.rooted).branches (fun r => stands_of_mem nested) (fun r => stands_of_mem nested')
    numbers n ((List.mem_cons.1 member).resolve_left (Nat.ne_of_gt positive))

variable {S : Ref → Ref → Prop}

theorem TypedExpr.Matches.mono (weaker : ∀ a b, R a b → S a b) : ∀ {e f : TypedExpr}, e.Matches R f →
    e.Matches S f
  | _, _, .literal equal related => .literal equal (weaker _ _ related)
  | _, _, .binary related left right => .binary (weaker _ _ related) (left.mono weaker) (right.mono weaker)

theorem Kind.Matches.mono (weaker : ∀ a b, R a b → S a b) {k l : Kind} (agree : k.Matches R l) :
    k.Matches S l := by
  have types {a b : Option Ref} (related : Option.Rel R a b) : Option.Rel S a b := by
    cases related with
    | none => exact .none
    | some related => exact .some (weaker _ _ related)
  cases agree with
  | root => exact .root
  | enumeration => exact .enumeration
  | classDecl => exact .classDecl
  | binding related inits =>
    refine .binding (types related) ?_
    cases inits with
    | none => exact .none
    | some one => exact .some (one.mono weaker)
  | function related parameters returns =>
    exact .function (types related)
      (parameters.imp fun _ _ one => ⟨one.modifiers, one.name, weaker _ _ one.ty⟩)
      (returns.imp fun _ _ one => one.mono weaker)

theorem Tree.Bisimulation.sameName (bisimulation : t.Bisimulation u R) : ∀ a b, R a b → SameName t u a b := by
  intro a b related
  obtain ⟨x, y, found, found', name, -⟩ := (bisimulation a b related).entries
  rw [SameName, Tree.name, Tree.name, found, found', Option.map_some, Option.map_some, name]

theorem Tree.Bisimulation.alike (bisimulation : t.Bisimulation u R) {e f : Entry}
    (related : R (.declared m) (.declared n)) (found : t.get? (.declared m) = some e)
    (found' : u.get? (.declared n) = some f) : e.toDraft.Alike t u f.toDraft := by
  obtain ⟨x, y, is, is', name, internal, kind⟩ := (bisimulation _ _ related).entries
  cases found.symm.trans is
  cases found'.symm.trans is'
  exact ⟨name, internal, kind.mono bisimulation.sameName⟩

-- Without entries that are made up, comparisons skip the built-in ones only.
theorem shown_declared (plain : ∀ n d, t.draft? n = some d → d.internal = false) (nested : Nested t)
    (p : Nat) : t.shownChildren (.declared p) = (t.children (.declared p)).filter Ref.isDeclared := by
  refine List.filter_congr fun r member => ?_
  have known := nested.contains_child member
  cases r with
  | builtin which => cases which <;> rfl
  | declared n =>
    obtain ⟨e, found⟩ := Option.isSome_iff_exists.1 known
    rw [found, Option.any_some, plain n e.toDraft (by rw [draft?, found]; rfl)]
    rfl

mutual

theorem Branch.alike (nested : Nested t) (nested' : Nested u)
    (plain : ∀ n d, t.draft? n = some d → d.internal = false)
    (plain' : ∀ n d, u.draft? n = some d → d.internal = false) (bisimulation : t.Bisimulation u R) :
    ∀ (b : Branch) {c : Branch} {m n : Nat}, t.Walk m b → u.Walk n c → R (.declared m) (.declared n) →
      Branch.Alike t u b c
  | .node _ e bs, _, m, n, .node found walks, .node found' walks', related => by
    have children := (bisimulation _ _ related).children
    rw [shown_declared plain nested, shown_declared plain' nested', children_of_get? found,
      children_of_get? found'] at children
    exact .node (bisimulation.alike related found found')
      (Branch.alikeAll nested nested' plain plain' bisimulation bs walks.branches walks'.branches children)

theorem Branch.alikeAll (nested : Nested t) (nested' : Nested u)
    (plain : ∀ n d, t.draft? n = some d → d.internal = false)
    (plain' : ∀ n d, u.draft? n = some d → d.internal = false) (bisimulation : t.Bisimulation u R) :
    ∀ (bs : List Branch) {cs : List Branch} {rs ss : List Ref}, List.Forall₂ (LeadsTo t) rs bs →
      List.Forall₂ (LeadsTo u) ss cs → List.Forall₂ R rs ss → Branch.AlikeAll t u bs cs
  | [], _, _, _, .nil, .nil, .nil => .nil
  | b :: bs, _, _, _, .cons ⟨_, same, walk⟩ rest, .cons ⟨_, same', walk'⟩ rest', .cons first others => by
    subst same same'
    exact .cons (Branch.alike nested nested' plain plain' bisimulation b walk walk' first)
      (Branch.alikeAll nested nested' plain plain' bisimulation bs rest rest' others)

end

end Frontend.Scope
