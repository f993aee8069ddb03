import Frontend.Proofs.WellTyped
import Frontend.Proofs.WrittenForm

-- Functions and getters of written programs.  The only functions that are written are constructors and
-- getters, so none of them implements an operator.  A getter stands right behind its variable, and gives back
-- values of the variable's type.

namespace Frontend.Typing

open Scope (Draft Kind Ref Tree TypedExpr)
open Scope.Tree
open Surface (BindingDecl FunctionDecl Modifiers Node)
open Grammar (Formed Place constructorDecl getterDecl)

variable {task : Task} {scope n k : Nat} {t t' : Tree} {d : Draft} {f : Draft → Draft}

-- A written declaration, or the constructor that stands for the parameter list of a class.
def Stands (node : Node) : Prop :=
  (∃ place, Formed place node) ∨ ∃ parameters, node = .function (constructorDecl parameters)

def FormedTask : Task → Prop
  | .node written => Stands written
  | .nodes written | .body _ _ _ written => ∀ node ∈ written, Stands node
  | .members _ _ => True
  | .function decl => (∃ parameters, decl = constructorDecl parameters) ∨
    ∃ name ty internal body, decl = getterDecl name ty internal body ∧ ∀ node ∈ body, Formed .getter node

theorem Stands.children {name : String} {generics : Option (List String)} {children : List Node}
    (stands : Stands (.classDecl name generics children)) : ∀ node ∈ children, Stands node := by
  rcases stands with ⟨place, formed⟩ | ⟨_, same⟩
  · cases formed with
    | bodyOnly formed => exact fun node member => .inl ⟨_, formed node member⟩
    | constructed formed =>
      exact List.forall_mem_cons.2
        ⟨.inr ⟨_, rfl⟩, fun node member => .inl ⟨_, formed node member⟩⟩
  · cases same

theorem Stands.getter {modifiers : Modifiers} {name : String} {ty init : Option Surface.Expr}
    {getter : FunctionDecl}
    (stands : Stands (.binding ⟨modifiers, name, ty, init, some getter⟩)) : init = none ∧
      ∃ internal body, getter = getterDecl name ty internal body ∧ ∀ node ∈ body, Formed .getter node := by
  rcases stands with ⟨place, formed⟩ | ⟨_, same⟩
  · cases formed with
    | accessor formed => exact ⟨rfl, _, _, rfl, formed⟩
  · cases same

theorem Stands.function {decl : FunctionDecl} (stands : Stands (.function decl)) :
    FormedTask (.function decl) := by
  rcases stands with ⟨place, formed⟩ | ⟨parameters, same⟩
  · cases formed
  · cases same
    exact .inl ⟨parameters, rfl⟩

theorem formed_children {decl : FunctionDecl} (formed : FormedTask (.function decl)) :
    ∀ node ∈ decl.children, Stands node := by
  rcases formed with ⟨_, rfl⟩ | ⟨_, _, _, _, rfl, formed⟩
  · exact List.forall_mem_nil _
  · exact fun node member => .inl ⟨_, formed node member⟩

theorem getterName_ne (name : String) : "get_" ++ name ≠ "+" := by
  intro same
  have lengths := congrArg String.length same
  rw [String.length_append] at lengths
  have long : "get_".length = 4 := rfl
  have short : "+".length = 1 := rfl
  omega

theorem formed_name {decl : FunctionDecl} (formed : FormedTask (.function decl)) : decl.name ≠ "+" := by
  rcases formed with ⟨_, rfl⟩ | ⟨name, _, _, _, rfl, -⟩
  · exact (by decide : ".ctor" ≠ "+")
  · exact getterName_ne name

theorem Enters.operatorless (enters : Enters task scope t t') (formed : FormedTask task)
    (operatorless : Operatorless t) : Operatorless t' := by
  induction enters with
  | none | memberless | bodyEnd => exact operatorless
  | more _ _ first others | bodyBinding _ _ first others =>
    obtain ⟨stands, formed⟩ := List.forall_mem_cons.1 formed
    exact others formed (first stands operatorless)
  | enumeration _ inner | member _ _ inner => exact inner trivial (operatorless_push operatorless nofun)
  | classDecl _ inner => exact inner formed.children (operatorless_push operatorless nofun)
  | plain => exact operatorless_push operatorless nofun
  | accessor _ _ _ _ _ inner =>
    obtain ⟨-, internal, body, rfl, inBody⟩ := formed.getter
    exact (withType_mild _).operatorless.2
      (inner (.inr ⟨_, _, _, _, rfl, inBody⟩) (operatorless_push operatorless nofun))
  | standing _ inner => exact inner formed.function operatorless
  | function _ _ _ body =>
    exact (withResults_mild _ _).operatorless.2
      (body (formed_children formed) (operatorless_push operatorless fun _ => formed_name formed))
  | bodyReturn _ _ _ others => exact others (List.forall_mem_cons.1 formed).2 operatorless

-- Entry `n` is the variable that is written so, and the next one is its getter, of the same type.
def Accessor (t : Tree) (n scope : Nat) (decl : BindingDecl) (getter : FunctionDecl) : Prop :=
  ∃ ty returns, t.draft? n = some ⟨decl.name, .binding decl.modifiers (some ty) none, false⟩ ∧
    t.draft? (n + 1) = some
      ⟨"get_" ++ decl.name, .function false [] (some ty) [] returns, getter.internal⟩ ∧
    t.parent (.declared n) = some (.declared scope) ∧
    t.parent (.declared (n + 1)) = some (.declared scope)

theorem Accessor.kept {decl : BindingDecl} {getter : FunctionDecl}
    (accessor : Accessor t n scope decl getter) (kept : Kept t t') :
    Accessor t' n scope decl getter := by
  obtain ⟨ty, returns, first, second, stands, stands'⟩ := accessor
  exact ⟨ty, returns, (kept.draft? _ (draft?_lt first)).trans first,
    (kept.draft? _ (draft?_lt second)).trans second, (kept.parent _ (draft?_lt first)).trans stands,
    (kept.parent _ (draft?_lt second)).trans stands'⟩

theorem Accessor.modify {decl : BindingDecl} {getter : FunctionDecl}
    (accessor : Accessor t n scope decl getter) (earlier : k < n) :
    Accessor (t.modify k f) n scope decl getter := by
  obtain ⟨ty, returns, first, second, stands, stands'⟩ := accessor
  refine ⟨ty, returns, ?_, ?_, parent_modify.trans stands, parent_modify.trans stands'⟩
  · rw [draft?_modify, if_neg (Nat.ne_of_gt earlier)]
    exact first
  · rw [draft?_modify, if_neg (by omega)]
    exact second

theorem returnType?_draft {name : String} {static internal : Bool} {generics : List String}
    {returnType : Option Ref} {parameters : List Scope.Parameter} {returns : List TypedExpr}
    (stands : t.draft? n = some
      ⟨name, .function static generics returnType parameters returns, internal⟩) :
    returnType? t (.declared n) = returnType := by
  unfold draft? at stands
  obtain ⟨e, found, same⟩ := Option.map_eq_some_iff.1 stands
  rw [returnType?, found, Option.bind_some, same]

-- A getter keeps the type that is written for it.
theorem Enters.getter {name : String} {ty : Option Surface.Expr} {internal : Bool} {body : List Node}
    (enters : Enters (.function (getterDecl name ty internal body)) scope t t')
    (operatorless : Operatorless t') : ∃ declared returnType returns,
      resolveAnnotation t (.declared scope) ty = .ok declared ∧
      (∀ known, declared = some known → returnType = some known) ∧
      t'.draft? t.size = some
        ⟨"get_" ++ name, .function false [] returnType [] returns, internal⟩ ∧
      t'.parent (.declared t.size) = some (.declared scope) := by
  cases enters with
  | @function _ _ _ _ _ _ declared types results _ _ t' resolved typed inner =>
    cases typed
    have operatorless := (withResults_mild results.returnType results.returns).operatorless.1 operatorless
    refine ⟨declared, results.returnType, results.returns, resolved, ?_, inner.kept.draft?_entered,
      inner.kept.parent_entered⟩
    rintro known rfl
    have keeps : Task.Keeps (Results.Known known) _ := inner.keeps operatorless Results.add_known
    exact keeps rfl

-- The variables with getters among the declarations are entered, none of them before `start`.
def AccessorsFrom (start : Nat) (sites : List Site) (t : Tree) : Prop :=
  ∀ site ∈ sites, ∀ decl getter, site.declaration = .binding decl → decl.getter = some getter →
    start ≤ site.number ∧ Accessor t site.number site.scope decl getter

namespace AccessorsFrom

variable {start : Nat} {site : Site} {declared others : List Site}

theorem nil : AccessorsFrom start [] t := List.forall_mem_nil _

theorem append (first : AccessorsFrom start declared t) (later : start ≤ t.size) (kept : Kept t t')
    (second : AccessorsFrom t.size others t') : AccessorsFrom start (declared ++ others) t' := by
  intro site member decl getter binding gets
  rcases List.mem_append.1 member with earlier | after
  · obtain ⟨late, accessor⟩ := first site earlier decl getter binding gets
    exact ⟨late, accessor.kept kept⟩
  · obtain ⟨late, accessor⟩ := second site after decl getter binding gets
    exact ⟨Nat.le_trans later late, accessor⟩

theorem cons (inner : AccessorsFrom (start + 1) others t)
    (first : ∀ decl getter, site.declaration = .binding decl → decl.getter = some getter →
      start ≤ site.number ∧ Accessor t site.number site.scope decl getter) :
    AccessorsFrom start (site :: others) t := by
  refine List.forall_mem_cons.2 ⟨first, fun site member decl getter binding gets => ?_⟩
  obtain ⟨late, accessor⟩ := inner site member decl getter binding gets
  exact ⟨Nat.le_of_succ_le late, accessor⟩

theorem modify (accessors : AccessorsFrom (k + 1) declared t) :
    AccessorsFrom (k + 1) declared (t.modify k f) := by
  intro site member decl getter binding gets
  obtain ⟨late, accessor⟩ := accessors site member decl getter binding gets
  exact ⟨late, accessor.modify late⟩

end AccessorsFrom

-- A variable whose value decides nothing has the type of its getter.
theorem accessor_entered {modifiers : Modifiers} {name : String} {ty : Option Surface.Expr}
    {internal : Bool} {body : List Node} {declared : Option Ref} {final : Ref}
    (within : scope < t.size) (nested : Nested t)
    (resolved : resolveAnnotation t (.declared scope) ty = .ok declared)
    (inner : Enters (.function (getterDecl name ty internal body)) scope
      (t.push scope ⟨name, .binding modifiers declared none, false⟩) t')
    (operatorless : Operatorless t')
    (known : declared.or (returnType? t' (.declared (t.size + 1))) = some final) :
    Accessor (t'.modify t.size (withType final)) t.size scope
      ⟨modifiers, name, ty, none, some (getterDecl name ty internal body)⟩
      (getterDecl name ty internal body) := by
  obtain ⟨declared', returnType, returns, resolved', same, is, stands⟩ := inner.getter operatorless
  -- What the variable is declared as is not changed by its own entry.
  rw [resolveAnnotation_push nested within rfl, resolved] at resolved'
  cases resolved'
  rw [size_push] at is stands
  rw [returnType?_draft is] at known
  have agrees : returnType = some final := by
    cases declared with
    | none => exact known
    | some ty => rw [← known]; exact same ty rfl
  subst agrees
  refine ⟨final, returns, inner.kept.draft?_entered, ?_, inner.kept.parent_entered,
    parent_modify.trans stands⟩
  rw [draft?_modify, if_neg (Nat.succ_ne_self _)]
  exact is

theorem Enters.accessors (enters : Enters task scope t t') (within : scope < t.size)
    (nested : Nested t) (operatorless : Operatorless t') (formed : FormedTask task) :
    AccessorsFrom t.size (task.sites scope t.size) t' := by
  induction enters with
  | none | bodyEnd =>
    rw [Task.sites, sites]
    exact .nil
  | memberless =>
    rw [Task.sites, memberSites]
    exact .nil
  | more first others ih ih' | bodyBinding first others ih ih' =>
    obtain ⟨stands, formed⟩ := List.forall_mem_cons.1 formed
    have before := others.kept.operatorless operatorless
    have within' := Nat.lt_of_lt_of_le within first.kept.size
    have second := ih' within' (first.nested within nested) operatorless formed
    rw [first.size] at second
    rw [Task.sites, sites]
    refine (ih within nested before stands).append first.kept.size others.kept ?_
    rw [first.size]
    exact second
  | enumeration _ ih =>
    have inside := ih (by simp) (nested.push within) operatorless trivial
    rw [Task.sites, nodeSites]
    rw [size_push] at inside
    exact inside.cons fun decl getter binding _ => by cases binding
  | classDecl _ ih =>
    have inside := ih (by simp) (nested.push within) operatorless formed.children
    rw [Task.sites, nodeSites]
    rw [size_push] at inside
    exact inside.cons fun decl getter binding _ => by cases binding
  | member _ _ ih =>
    have inside := ih (within_push within) (nested.push within) operatorless trivial
    rw [Task.sites, memberSites]
    rw [size_push] at inside
    exact inside.cons fun decl getter binding _ => by cases binding
  | plain =>
    rw [Task.sites, nodeSites, bindingSites, getterSites]
    refine AccessorsFrom.nil.cons fun decl getter binding gets => ?_
    cases binding
    cases gets
  | accessor resolved typed expected inner known ih =>
    obtain ⟨rfl, internal, body, rfl, inBody⟩ := formed.getter
    have operatorless := (withType_mild _).operatorless.1 operatorless
    cases typed
    rw [Option.map_none, Option.or_none] at inner known
    have inside := ih (within_push within) (nested.push within) operatorless
      (.inr ⟨_, _, _, _, rfl, inBody⟩)
    rw [Task.sites, nodeSites, bindingSites, getterSites]
    rw [size_push] at inside
    refine inside.modify.cons fun decl getter binding gets => ?_
    cases binding
    cases gets
    exact ⟨Nat.le_refl _, accessor_entered within nested resolved inner operatorless known⟩
  | standing _ ih =>
    rw [Task.sites, nodeSites]
    exact ih within nested operatorless formed.function
  | function _ _ _ ih =>
    have operatorless := (withResults_mild _ _).operatorless.1 operatorless
    have inside := ih (by simp) (nested.push within) operatorless (formed_children formed)
    rw [Task.sites, functionSites]
    rw [size_push] at inside
    exact inside.modify.cons fun decl getter binding _ => by cases binding
  | bodyReturn _ _ _ ih =>
    have others := ih within nested operatorless (List.forall_mem_cons.1 formed).2
    simpa [Task.sites, sites, nodeSites] using others

end Frontend.Typing
