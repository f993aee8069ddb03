import Frontend.Scope.Similar
import Mathlib.Data.List.Forall2

-- Which entries of two scope trees are similar: those that some bisimulation relates.  A bisimulation relates
-- entries that agree in all that they say themselves, and relates all that they refer to as well.  It may go
-- around in circles, as references do.

namespace Frontend.Scope

-- Expressions of one shape, with the same operators and with equal values.
inductive TypedExpr.Matches (R : Ref → Ref → Prop) : TypedExpr → TypedExpr → Prop where
  | literal {v w : Value} {t u : Ref} : v.equals w = true → R t u →
      Matches R (.literal v t) (.literal w u)
  | binary {op : Surface.BinaryOperator} {a b c d : TypedExpr} {t u : Ref} : R t u → Matches R a c →
      Matches R b d → Matches R (.binary op a b t) (.binary op c d u)

structure Parameter.Matches (R : Ref → Ref → Prop) (p q : Parameter) : Prop where
  modifiers : p.modifiers = q.modifiers
  name : p.name = q.name
  ty : R p.ty q.ty

inductive Kind.Matches (R : Ref → Ref → Prop) : Kind → Kind → Prop where
  | root : Matches R .root .root
  | enumeration : Matches R .enumeration .enumeration
  | classDecl {generics : List String} : Matches R (.classDecl generics) (.classDecl generics)
  | binding {modifiers : Surface.Modifiers} {t u : Option Ref} {e f : Option TypedExpr} :
      Option.Rel R t u → Option.Rel (TypedExpr.Matches R) e f →
      Matches R (.binding modifiers t e) (.binding modifiers u f)
  | function {static : Bool} {generics : List String} {r q : Option Ref} {ps qs : List Parameter}
      {xs ys : List TypedExpr} : Option.Rel R r q → List.Forall₂ (Parameter.Matches R) ps qs →
      List.Forall₂ (TypedExpr.Matches R) xs ys →
      Matches R (.function static generics r ps xs) (.function static generics q qs ys)

namespace Tree

-- The children that are not made up, in their order.
def shownChildren (t : Tree) (a : Ref) : List Ref :=
  (t.children a).filter fun child => (t.get? child).any fun e => !e.internal

-- Two entries agree, and what they refer to and what stands in them is related.
structure Matches (t u : Tree) (R : Ref → Ref → Prop) (a b : Ref) : Prop where
  entries : ∃ x y, t.get? a = some x ∧ u.get? b = some y ∧ x.name = y.name ∧
    x.internal = y.internal ∧ x.kind.Matches R y.kind
  children : List.Forall₂ R (t.shownChildren a) (u.shownChildren b)

def Bisimulation (t u : Tree) (R : Ref → Ref → Prop) : Prop := ∀ a b, R a b → t.Matches u R a b

def Bisimilar (t u : Tree) (a b : Ref) : Prop := ∃ R, t.Bisimulation u R ∧ R a b

end Tree

-- The comparison has not failed, and all the pairs it asks for are related.
def Granted (R : Ref → Ref → Prop) (asked : Option (List RefPair)) : Prop :=
  ∃ needed, asked = some needed ∧ ∀ p ∈ needed, R p.1 p.2

section Granted

variable {R : Ref → Ref → Prop} {α : Type} {P : α → α → Prop} {pairs : α → α → Option (List RefPair)}

@[simp] theorem granted_none : ¬ Granted R none := by
  intro granted
  obtain ⟨_, same, _⟩ := granted
  cases same

@[simp] theorem granted_some {needed : List RefPair} :
    Granted R (some needed) ↔ ∀ p ∈ needed, R p.1 p.2 := by
  simp only [Granted, Option.some.injEq, exists_eq_left']

theorem granted_append {asked others : Option (List RefPair)} :
    Granted R (do let xs ← asked; let ys ← others; return xs ++ ys) ↔
      Granted R asked ∧ Granted R others := by
  cases asked with
  | none => simp
  | some xs =>
    cases others with
    | none => simp
    | some ys => simp [or_imp, forall_and]

theorem granted_if {c : Prop} [Decidable c] {asked : Option (List RefPair)} :
    Granted R (if c then asked else none) ↔ c ∧ Granted R asked := by
  by_cases holds : c <;> simp [holds]

theorem granted_lists (each : ∀ x y, Granted R (pairs x y) ↔ P x y) (xs ys : List α) :
    Granted R (pairsOfLists pairs xs ys) ↔ List.Forall₂ P xs ys := by
  induction xs generalizing ys with
  | nil => cases ys <;> simp [pairsOfLists]
  | cons x xs ih =>
    cases ys with
    | nil => simp [pairsOfLists]
    | cons y ys => rw [pairsOfLists, granted_append, each, ih, List.forall₂_cons]

theorem granted_options (each : ∀ x y, Granted R (pairs x y) ↔ P x y) (x y : Option α) :
    Granted R (pairsOfOptions pairs x y) ↔ Option.Rel P x y := by
  cases x <;> cases y <;> simp [pairsOfOptions, each]

theorem granted_refs (a b : Ref) : Granted R (pairOfRefs a b) ↔ R a b := by
  simp [pairOfRefs]

theorem granted_exprs (e f : TypedExpr) : Granted R (e.pairs f) ↔ e.Matches R f := by
  induction e generalizing f with
  | literal v t =>
    cases f with
    | literal w u =>
      rw [TypedExpr.pairs, granted_if, granted_some, List.forall_mem_singleton]
      constructor
      · intro both
        exact .literal both.1 both.2
      · rintro ⟨equal, related⟩
        exact ⟨equal, related⟩
    | binary => exact ⟨fun granted => (granted_none granted).elim, nofun⟩
  | binary op a b t left right =>
    cases f with
    | literal => exact ⟨fun granted => (granted_none granted).elim, nofun⟩
    | binary op' c d u =>
      rw [TypedExpr.pairs, granted_if]
      have parts : Granted R (do
          let left ← a.pairs c
          let right ← b.pairs d
          return (t, u) :: left ++ right) ↔ R t u ∧ a.Matches R c ∧ b.Matches R d := by
        rw [← left, ← right]
        cases a.pairs c with
        | none => simp
        | some xs => cases b.pairs d <;> simp [or_imp, forall_and]
      rw [parts]
      constructor
      · rintro ⟨rfl, related, matchLeft, matchRight⟩
        exact .binary related matchLeft matchRight
      · rintro (_ | ⟨related, matchLeft, matchRight⟩)
        exact ⟨rfl, related, matchLeft, matchRight⟩

theorem granted_parameters (p q : Parameter) : Granted R (p.pairs q) ↔ p.Matches R q := by
  rw [Parameter.pairs, granted_if, granted_some, List.forall_mem_singleton]
  exact ⟨fun all => ⟨all.1.1, all.1.2, all.2⟩, fun same => ⟨⟨same.modifiers, same.name⟩, same.ty⟩⟩

theorem granted_kinds (k l : Kind) : Granted R (k.pairs l) ↔ k.Matches R l := by
  cases k <;> cases l
  case root.root => exact ⟨fun _ => .root, fun _ => ⟨[], rfl, nofun⟩⟩
  case enumeration.enumeration => exact ⟨fun _ => .enumeration, fun _ => ⟨[], rfl, nofun⟩⟩
  case classDecl.classDecl gs hs =>
    rw [Kind.pairs, granted_if, granted_some]
    constructor
    · rintro ⟨rfl, -⟩
      exact .classDecl
    · rintro ⟨⟩
      exact ⟨rfl, nofun⟩
  case binding.binding m t e n u f =>
    rw [Kind.pairs, granted_if, granted_append, granted_options granted_refs,
      granted_options granted_exprs]
    constructor
    · rintro ⟨rfl, types, inits⟩
      exact .binding types inits
    · rintro (_ | _ | _ | ⟨types, inits⟩)
      exact ⟨rfl, types, inits⟩
  case function.function s gs r ps xs s' hs q qs ys =>
    have parts : Granted R (do
        let results ← pairsOfOptions pairOfRefs r q
        let parameters ← pairsOfLists Parameter.pairs ps qs
        let returns ← pairsOfLists TypedExpr.pairs xs ys
        return results ++ parameters ++ returns) ↔ Option.Rel R r q ∧
          List.Forall₂ (Parameter.Matches R) ps qs ∧ List.Forall₂ (TypedExpr.Matches R) xs ys := by
      rw [← granted_options granted_refs, ← granted_lists granted_parameters,
        ← granted_lists granted_exprs, ← granted_append, ← granted_append]
      simp only [bind_assoc, pure_bind, List.append_assoc]
    rw [Kind.pairs, granted_if, parts]
    constructor
    · rintro ⟨⟨rfl, rfl⟩, results, parameters, returns⟩
      exact .function results parameters returns
    · rintro (_ | _ | _ | _ | ⟨results, parameters, returns⟩)
      exact ⟨⟨rfl, rfl⟩, results, parameters, returns⟩
  all_goals exact ⟨fun granted => (granted_none granted).elim, nofun⟩

theorem granted_pairs {t u : Tree} {a b : Ref} :
    Granted R (t.pairs u a b) ↔ t.Matches u R a b := by
  unfold Tree.pairs
  rcases foundA : t.get? a with _ | x
  · refine ⟨fun granted => (granted_none granted).elim, fun same => ?_⟩
    obtain ⟨_, _, found, _⟩ := same.entries
    rw [foundA] at found
    cases found
  rcases foundB : u.get? b with _ | y
  · refine ⟨fun granted => (granted_none granted).elim, fun same => ?_⟩
    obtain ⟨_, _, _, found, _⟩ := same.entries
    rw [foundB] at found
    cases found
  simp only [Option.bind_eq_bind, Option.bind_some]
  rw [granted_if, ← Option.bind_eq_bind, granted_append, granted_kinds, granted_lists granted_refs]
  constructor
  · rintro ⟨⟨name, internal⟩, kinds, children⟩
    exact ⟨⟨x, y, foundA, foundB, name, internal, kinds⟩, children⟩
  · rintro ⟨⟨x', y', foundA', foundB', name, internal, kinds⟩, children⟩
    rw [foundA] at foundA'
    rw [foundB] at foundB'
    cases foundA'
    cases foundB'
    exact ⟨⟨name, internal⟩, kinds, children⟩

end Granted

-- A way to arrange the pairs that are still to be examined, before the next one is taken.
structure Agenda where
  arrange : List RefPair → List RefPair → List RefPair
  keeps : ∀ seen pending, (arrange seen pending).Perm pending

-- The order in which they come.
def Agenda.asTheyCome : Agenda := ⟨fun _ pending => pending, fun _ _ => .rfl⟩

namespace Tree

theorem exploration_le {α : Type} {x : α} {xs ys zs : List α} (same : xs = x :: ys)
    (perm : xs.Perm zs) : ys.length < zs.length := by
  rw [← perm.length_eq, same]
  exact Nat.lt_succ_self _

-- Whether all the pairs in `pending` are similar, examined in an order of one's own.
def similarInOrder (t u : Tree) (agenda : Agenda) (seen pending : List RefPair) : Bool :=
  match _next : agenda.arrange seen pending with
  | [] => true
  | (a, b) :: others =>
    if _seen : seen.contains (a, b) then t.similarInOrder u agenda seen others
    else
      match _agree : t.pairs u a b with
      | none => false
      | some needed => t.similarInOrder u agenda ((a, b) :: seen) (needed ++ others)
termination_by ((t.unseen u seen).length, pending.length)
decreasing_by
  · exact Prod.Lex.right _ (exploration_le _next (agenda.keeps _ _))
  · exact Prod.Lex.left _ _ (unseen_length_lt (mem_allPairs_of_pairs _agree) _seen)

section Exploring

variable {t u : Tree} {agenda : Agenda} {seen pending : List RefPair}

theorem similarFrom_eq_inOrder (t u : Tree) (seen pending : List RefPair) :
    t.similarFrom u seen pending = t.similarInOrder u .asTheyCome seen pending := by
  fun_induction t.similarInOrder u .asTheyCome seen pending with
  | case1 seen pending next =>
    rw [show pending = [] from next, similarFrom]
  | case2 seen pending a b others next known ih =>
    rw [show pending = (a, b) :: others from next, similarFrom, dif_pos known, ih]
  | case3 seen pending a b others next fresh agree =>
    rw [show pending = (a, b) :: others from next, similarFrom, dif_neg fresh]
    split
    · rfl
    · next agree' => rw [agree] at agree'; cases agree'
  | case4 seen pending a b others next fresh needed agree ih =>
    rw [show pending = (a, b) :: others from next, similarFrom, dif_neg fresh]
    split
    · next agree' => rw [agree] at agree'; cases agree'
    · next needed' agree' => rw [agree] at agree'; cases agree'; exact ih

theorem Agenda.mem_iff {arranged : List RefPair} (next : agenda.arrange seen pending = arranged)
    (p : RefPair) : p ∈ pending ↔ p ∈ arranged := by
  rw [← next]
  exact (agenda.keeps seen pending).mem_iff.symm

-- Where the answer is positive, all that was pending was examined, and what was examined asked only for
-- pairs that were examined too.
theorem similarInOrder_sound (similar : t.similarInOrder u agenda seen pending = true) :
    ∃ examined : List RefPair, seen ⊆ examined ∧ pending ⊆ examined ∧ ∀ p ∈ examined, p ∉ seen →
      t.Matches u (fun a b => (a, b) ∈ examined) p.1 p.2 := by
  fun_induction t.similarInOrder u agenda seen pending with
  | case1 seen pending next =>
    refine ⟨seen, List.Subset.refl _, fun p waits => ?_, fun p known fresh => absurd known fresh⟩
    cases (Agenda.mem_iff next p).1 waits
  | case2 seen pending a b others next known ih =>
    obtain ⟨examined, kept, all, good⟩ := ih similar
    refine ⟨examined, kept, fun p waits => ?_, good⟩
    rcases List.mem_cons.1 ((Agenda.mem_iff next p).1 waits) with rfl | later
    · exact kept (List.contains_iff_mem.1 known)
    · exact all later
  | case3 => cases similar
  | case4 seen pending a b others next fresh needed agree ih =>
    obtain ⟨examined, kept, all, good⟩ := ih similar
    have here : (a, b) ∈ examined := kept List.mem_cons_self
    refine ⟨examined, fun p known => kept (List.mem_cons_of_mem _ known), fun p waits => ?_, ?_⟩
    · rcases List.mem_cons.1 ((Agenda.mem_iff next p).1 waits) with rfl | later
      · exact here
      · exact all (List.mem_append_right _ later)
    · intro p among new
      by_cases same : p = (a, b)
      · subst same
        refine granted_pairs.1 ?_
        rw [agree, granted_some]
        exact fun q asked => all (List.mem_append_left _ asked)
      · exact good p among fun known => (List.mem_cons.1 known).elim same new

-- Where all that is pending is bisimilar, nothing is found that differs.
theorem similarInOrder_complete (bisimilar : ∀ p ∈ pending, t.Bisimilar u p.1 p.2) :
    t.similarInOrder u agenda seen pending = true := by
  fun_induction t.similarInOrder u agenda seen pending with
  | case1 => rfl
  | case2 seen pending a b others next known ih =>
    exact ih fun p later => bisimilar p ((Agenda.mem_iff next p).2 (List.mem_cons_of_mem _ later))
  | case3 seen pending a b others next fresh differ =>
    obtain ⟨R, bisimulation, related⟩ :=
      bisimilar (a, b) ((Agenda.mem_iff next _).2 List.mem_cons_self)
    have granted := granted_pairs.2 (bisimulation a b related)
    rw [differ] at granted
    exact (granted_none granted).elim
  | case4 seen pending a b others next fresh needed agree ih =>
    obtain ⟨R, bisimulation, related⟩ :=
      bisimilar (a, b) ((Agenda.mem_iff next _).2 List.mem_cons_self)
    have granted := granted_pairs.2 (bisimulation a b related)
    rw [agree, granted_some] at granted
    refine ih fun p waits => ?_
    rcases List.mem_append.1 waits with asked | later
    · exact ⟨R, bisimulation, granted p asked⟩
    · exact bisimilar p ((Agenda.mem_iff next p).2 (List.mem_cons_of_mem _ later))

theorem similarInOrder_iff (t u : Tree) (agenda : Agenda) (a b : Ref) :
    t.similarInOrder u agenda [] [(a, b)] = true ↔ t.Bisimilar u a b := by
  constructor
  · intro similar
    obtain ⟨examined, -, all, good⟩ := similarInOrder_sound similar
    exact ⟨fun a b => (a, b) ∈ examined, fun a b among => good (a, b) among List.not_mem_nil,
      all List.mem_cons_self⟩
  · intro bisimilar
    exact similarInOrder_complete fun p only => by rwa [List.mem_singleton.1 only]

end Exploring

-- Entries are similar if and only if a bisimulation relates them.
--
-- The order in which pairs are examined makes no difference, and there may be circles among the references.
theorem similar_iff_bisimilar (t : Tree) (a : Ref) (u : Tree) (b : Ref) :
    (t.similar a u b = true ↔ ∃ R, t.Bisimulation u R ∧ R a b) ∧
      ∀ agenda : Agenda, t.similarInOrder u agenda [] [(a, b)] = t.similar a u b := by
  have first : t.similar a u b = true ↔ t.Bisimilar u a b := by
    rw [similar, similarFrom_eq_inOrder]
    exact similarInOrder_iff t u .asTheyCome a b
  refine ⟨first, fun agenda => ?_⟩
  rw [Bool.eq_iff_iff, first]
  exact similarInOrder_iff t u agenda a b

end Tree

end Frontend.Scope
