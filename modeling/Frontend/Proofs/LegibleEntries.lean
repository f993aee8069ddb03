import Frontend.Proofs.LegibleTrees
import Frontend.Proofs.TypeSoundness

-- What the entries of a program are called and what they hold, as far as it is printed, and where its
-- getters stand.

namespace Frontend

open Text
open Scope (Draft Kind Ref Tree TypedExpr)
open Scope.Tree
open Surface (BindingDecl FunctionDecl Modifiers Node)

namespace Scope

-- Numbers in an expression are such as digits can write.
def TypedExpr.Legible : TypedExpr → Prop
  | literal value _ => ∀ d, value = .double d → d.Unsigned
  | binary _ lhs rhs _ => lhs.Legible ∧ rhs.Legible

-- Names are words, but for those of functions, and nothing but a function is made up.
inductive Draft.Legible : Draft → Prop where
  | enumeration {name : String} : Word name → Legible ⟨name, .enumeration, false⟩
  | classDecl {name : String} {generics : Option (List String)} : Word name →
      (∀ names ∈ generics, names ≠ [] ∧ ∀ name ∈ names, Word name) →
      Legible ⟨name, .classDecl (generics.getD []), false⟩
  | binding {name : String} {modifiers : Modifiers} {ty : Option Ref} {init : Option TypedExpr} :
      Word name → (∀ e ∈ init, e.Legible) → Legible ⟨name, .binding modifiers ty init, false⟩
  | function {name : String} {returnType : Option Ref} {parameters : List Parameter}
      {returns : List TypedExpr} {internal : Bool} : '(' ∉ name.toList → '\n' ∉ name.toList →
      (∀ p ∈ parameters, Word p.name) → (∀ e ∈ returns, e.Legible) →
      Legible ⟨name, .function false [] returnType parameters returns, internal⟩

end Scope

namespace Typing

open Grammar (Formed constructorDecl getterDecl)

variable {task : Task} {scope n k start : Nat} {t t' : Tree} {d : Draft} {f : Draft → Draft}

theorem typeExpr_legible : ∀ (written : Surface.Expr) {e : TypedExpr}, typeExpr t written = .ok e →
    written.Legible → e.Legible
  | .literal value, e, typed, legible => by
    cases typed
    cases legible with
    | literal numbers => exact numbers
    | name type => cases type
  | .grouping inner, e, typed, legible => by
    cases legible with
    | name type => cases type
    | grouping legible => exact typeExpr_legible inner typed legible
  | .binary op lhs rhs, e, typed, legible => by
    obtain ⟨left, leftTyped, typed⟩ := bind_eq_ok.1 typed
    obtain ⟨right, rightTyped, typed⟩ := bind_eq_ok.1 typed
    obtain ⟨ty, -, typed⟩ := bind_eq_ok.1 typed
    cases typed
    cases legible with
    | name type => cases type
    | binary legible legible' =>
      exact ⟨typeExpr_legible lhs leftTyped legible, typeExpr_legible rhs rightTyped legible'⟩

theorem typeInit_legible {init : Option Surface.Expr} {value : Option TypedExpr}
    (typed : typeInit t init = .ok value) (legible : ∀ e ∈ init, e.Legible) : ∀ e ∈ value, e.Legible := by
  cases init with
  | none => cases typed; exact nofun
  | some written =>
    obtain ⟨e, meant, same⟩ := bind_eq_ok.1 typed
    cases same
    rintro _ ⟨⟩
    exact typeExpr_legible written meant (legible written rfl)

theorem resolveParameters_words {x : Ref} : ∀ (parameters : List Surface.Parameter)
    {types : List Scope.Parameter}, resolveParameters t x parameters = .ok types →
    (∀ p ∈ parameters, Word p.name) → ∀ q ∈ types, Word q.name
  | [], _, resolved, _ => by
    cases resolved
    exact List.forall_mem_nil _
  | p :: ps, _, resolved, words => by
    obtain ⟨ty, -, resolved⟩ := bind_eq_ok.1 resolved
    obtain ⟨others, rest, same⟩ := bind_eq_ok.1 resolved
    cases same
    obtain ⟨first, words⟩ := List.forall_mem_cons.1 words
    exact List.forall_mem_cons.2 ⟨first, resolveParameters_words ps rest words⟩

def Results.Legible (results : Results) : Prop := ∀ e ∈ results.returns, e.Legible

def LegibleTask : Task → Prop
  | .node written => written.Legible
  | .nodes written | .members _ written | .body _ _ _ written => ∀ node ∈ written, node.Legible
  | .function decl => (Node.function decl).Legible

-- The entries from `start` on are legible.
def LegibleFrom (start : Nat) (t : Tree) : Prop := ∀ n d, start ≤ n → t.draft? n = some d → d.Legible

namespace LegibleFrom

theorem none : LegibleFrom t.size t :=
  fun _ _ late stands => absurd (draft?_lt stands) (Nat.not_lt.2 late)

theorem trans (first : LegibleFrom start t) (kept : Kept t t') (others : LegibleFrom t.size t') :
    LegibleFrom start t' := by
  intro n d late stands
  rcases Nat.lt_or_ge n t.size with old | new
  · exact first n d late ((kept.draft? n old).symm.trans stands)
  · exact others n d new stands

theorem push (legible : d.Legible) : LegibleFrom t.size (t.push scope d) := by
  intro n d' late stands
  rw [draft?_push] at stands
  split at stands
  · cases stands
    exact legible
  · exact absurd (draft?_lt stands) (Nat.not_lt.2 late)

theorem entered (kept : Kept (t.push scope d) t') (inner : LegibleFrom (t.push scope d).size t')
    (legible : (f d).Legible) : LegibleFrom t.size (t'.modify t.size f) := by
  intro n d' late stands
  rw [draft?_modify] at stands
  split at stands
  · next same =>
    subst same
    rw [kept.draft?_pushed] at stands
    cases stands
    exact legible
  · next other =>
    have inside : (t.push scope d).size ≤ n := by rw [size_push]; omega
    exact inner n d' inside stands

end LegibleFrom

theorem Enters.legible (enters : Enters task scope t t') (legible : LegibleTask task) :
    LegibleFrom t.size t' ∧ task.Keeps Results.Legible := by
  induction enters with
  | none | memberless => exact ⟨.none, trivial⟩
  | bodyEnd => exact ⟨.none, id⟩
  | more first others ih ih' =>
    obtain ⟨node, nodes⟩ := List.forall_mem_cons.1 legible
    exact ⟨(ih node).1.trans others.kept (ih' nodes).1, trivial⟩
  | bodyBinding first others ih ih' =>
    obtain ⟨node, nodes⟩ := List.forall_mem_cons.1 legible
    exact ⟨(ih node).1.trans others.kept (ih' nodes).1, (ih' nodes).2⟩
  | enumeration inner ih =>
    cases legible with
    | enumeration word members =>
      exact ⟨.trans (.push (.enumeration word)) inner.kept (ih members).1, trivial⟩
  | classDecl inner ih =>
    cases legible with
    | classDecl word generics children =>
      exact ⟨.trans (.push (.classDecl word generics)) inner.kept (ih children).1, trivial⟩
  | member valued inner ih =>
    obtain ⟨node, others⟩ := List.forall_mem_cons.1 legible
    cases node with
    | binding word _ _ _ =>
      refine ⟨.trans (.push (.binding word ?_)) inner.kept (ih others).1, trivial⟩
      rintro _ ⟨⟩
      exact nofun
  | plain _ typed _ _ =>
    cases legible with
    | binding word _ init _ => exact ⟨.push (.binding word (typeInit_legible typed init)), trivial⟩
  | accessor _ typed _ inner _ ih =>
    cases legible with
    | binding word _ init getter =>
      exact ⟨.entered inner.kept (ih (getter _ rfl)).1 (.binding word (typeInit_legible typed init)), trivial⟩
  | standing _ ih => exact ⟨(ih legible).1, trivial⟩
  | function _ resolved inner ih =>
    cases legible with
    | function opening newline _ parameters children =>
      obtain ⟨inside, keeps⟩ := ih children
      refine ⟨.entered inner.kept inside (.function opening newline ?_ ?_), trivial⟩
      · exact resolveParameters_words _ resolved fun p member => (parameters p member).1
      · exact keeps (List.forall_mem_nil _)
  | bodyReturn typed added _ ih =>
    obtain ⟨value, others⟩ := List.forall_mem_cons.1 legible
    obtain ⟨inside, keeps⟩ := ih others
    refine ⟨inside, fun before => keeps ?_⟩
    obtain ⟨rfl, -⟩ := Results.add_ok added
    cases value with
    | ret value =>
      exact List.forall_mem_append.2 ⟨before, List.forall_mem_singleton.2 (typeExpr_legible _ typed value)⟩

-- If the entry `n` is such a function, it stands behind a variable of its type.
def Gets (t : Tree) (n : Nat) : Prop :=
  ∀ name static generics returnType parameters e returns internal, t.draft? n =
    some ⟨name, .function static generics returnType parameters (e :: returns), internal⟩ →
    ∃ m name modifiers init, n = m + 1 ∧ t.draft? m = some ⟨name, .binding modifiers returnType init, false⟩

def GetsFrom (start : Nat) (t : Tree) : Prop := ∀ n, start ≤ n → Gets t n

-- What stands before a function is not entered with it.
def Task.skipped : Task → Nat
  | .function _ => 1
  | _ => 0

theorem Gets.unknown (late : t.size ≤ n) : Gets t n :=
  fun _ _ _ _ _ _ _ _ stands => absurd (draft?_lt stands) (Nat.not_lt.2 late)

theorem Gets.valueless (is : t.draft? n = some d) (none : d.kind.isFunction = false) : Gets t n := by
  intro name static generics returnType parameters e returns internal stands
  cases is.symm.trans stands
  cases none

namespace GetsFrom

theorem none : GetsFrom t.size t := fun _ late => .unknown late

theorem trans (first : GetsFrom start t) (kept : Kept t t') (others : GetsFrom t.size t') :
    GetsFrom start t' := by
  intro n late
  rcases Nat.lt_or_ge n t.size with old | new
  · intro name static generics returnType parameters e returns internal stands
    rw [kept.draft? n old] at stands
    obtain ⟨m, name', modifiers, init, behind, is⟩ := first n late _ _ _ _ _ _ _ _ stands
    exact ⟨m, name', modifiers, init, behind, (kept.draft? m (draft?_lt is)).trans is⟩
  · exact others n new

theorem around (none : d.kind.isFunction = false) (kept : Kept (t.push scope d) t')
    (inner : GetsFrom (t.push scope d).size t') : GetsFrom t.size t' := by
  intro n late
  rcases Nat.eq_or_lt_of_le late with rfl | later
  · exact .valueless kept.draft?_pushed none
  · exact inner n (by rw [size_push]; exact later)

end GetsFrom

-- The change of an entry does not matter for functions further behind.
theorem Gets.modify (gets : Gets t n) (later : k < n) (other : n ≠ k + 1) : Gets (t.modify k f) n := by
  intro name static generics returnType parameters e returns internal stands
  rw [draft?_modify, if_neg (Nat.ne_of_gt later)] at stands
  obtain ⟨m, name', modifiers, init, rfl, is⟩ := gets _ _ _ _ _ _ _ _ stands
  refine ⟨m, name', modifiers, init, rfl, ?_⟩
  rw [draft?_modify, if_neg fun same => other (congrArg Nat.succ same)]
  exact is

theorem Stands.constructor {decl : FunctionDecl} (stands : Stands (.function decl)) :
    ∃ parameters, decl = constructorDecl parameters := by
  rcases stands with ⟨place, formed⟩ | ⟨parameters, same⟩
  · cases formed
  · exact ⟨parameters, Node.function.inj same⟩

theorem Enters.gets (enters : Enters task scope t t') (within : scope < t.size) (nested : Nested t)
    (operatorless : Operatorless t') (formed : FormedTask task) :
    GetsFrom (t.size + task.skipped) t' := by
  induction enters with
  | none | memberless | bodyEnd => exact .none
  | more first others ih ih' | bodyBinding first others ih ih' =>
    obtain ⟨stands, formed⟩ := List.forall_mem_cons.1 formed
    have before := others.kept.operatorless operatorless
    exact (ih within nested before stands).trans others.kept
      (ih' (Nat.lt_of_lt_of_le within first.kept.size) (first.nested within nested) operatorless formed)
  | enumeration inner ih =>
    exact .around rfl inner.kept (ih (by simp) (nested.push within) operatorless trivial)
  | classDecl inner ih =>
    exact .around rfl inner.kept (ih (by simp) (nested.push within) operatorless formed.children)
  | member _ inner ih =>
    exact .around rfl inner.kept (ih (within_push within) (nested.push within) operatorless trivial)
  | plain => exact .around rfl .refl .none
  | @accessor modifiers _ _ _ _ _ _ final _ t t' resolved typed _ inner known ih =>
    obtain ⟨rfl, internal, body, rfl, inBody⟩ := formed.getter
    have operatorless := (withType_mild _).operatorless.1 operatorless
    cases typed
    rw [Option.map_none, Option.or_none] at inner known
    have inside := ih (within_push within) (nested.push within) operatorless
      (.inr ⟨_, _, _, _, rfl, inBody⟩)
    have accessor : Accessor _ _ _ ⟨modifiers, _, _, _, _⟩ _ :=
      accessor_entered within nested resolved inner operatorless known
    obtain ⟨ty, returns, first, second, -⟩ := accessor
    intro n late
    rcases Nat.eq_or_lt_of_le late with rfl | later
    · exact .valueless first rfl
    rcases Nat.eq_or_lt_of_le later with rfl | behind
    · intro name static generics returnType parameters e returns internal stands
      cases second.symm.trans stands
      exact ⟨t.size, _, _, _, rfl, first⟩
    · have there : Gets t' n := inside n (by rw [size_push]; exact behind)
      exact there.modify later (Nat.ne_of_gt behind)
  | @standing _ _ t _ inner ih =>
    have inside := ih within nested operatorless formed.function
    obtain ⟨_, rfl⟩ : ∃ parameters, _ = constructorDecl parameters := formed.constructor
    intro n (late : t.size ≤ n)
    rcases Nat.eq_or_lt_of_le late with rfl | later
    · intro name static generics returnType parameters e returns internal stands
      cases inner with
      | function resolved typed body =>
        cases body
        cases Kept.refl.draft?_entered.symm.trans stands
    · exact inside n later
  | @function _ _ _ _ _ _ _ _ results _ t t' resolved typed inner ih =>
    have operatorless := (withResults_mild _ _).operatorless.1 operatorless
    have inside := ih (by simp) (nested.push within) operatorless (formed_children formed)
    intro n (late : t.size + 1 ≤ n)
    have there : Gets t' n := inside n (by rw [size_push]; exact late)
    rcases Nat.eq_or_lt_of_le late with rfl | behind
    · -- What stands before the entry is the function, and no variable.
      intro name static generics returnType parameters e returns internal stands
      rw [draft?_modify, if_neg (Nat.succ_ne_self _)] at stands
      obtain ⟨m, _, _, _, same, is⟩ := there _ _ _ _ _ _ _ _ stands
      cases same
      cases is.symm.trans inner.kept.draft?_pushed
    · exact there.modify late (Nat.ne_of_gt behind)
  | bodyReturn _ _ _ ih => exact ih within nested operatorless (List.forall_mem_cons.1 formed).2

end Typing

end Frontend
