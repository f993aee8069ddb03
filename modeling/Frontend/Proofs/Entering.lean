import Frontend.Compilation
import Frontend.Proofs.Edits

-- What entering a declaration into a scope does, apart from the checks that stop it.  Everything that holds of
-- all scope trees of programs is proved by induction on this relation.

namespace Frontend.Typing

open Scope (Draft Kind Ref Tree TypedExpr)
open Scope.Tree
open Surface (BindingDecl FunctionDecl Modifiers Node)

inductive Task where
  | node (node : Node)
  | nodes (nodes : List Node)
  -- The members of an enum; the first one has the value `next` if none is written for it.
  | members (next : Option Int64) (members : List Node)
  | function (decl : FunctionDecl)
  -- The rest of the body of the function `name`, and what is known of its values before and after it.
  | body (name : String) (before after : Results) (nodes : List Node)

-- What the task declares is entered into the scope, which turns the first tree into the second one.
inductive Enters : Task → Nat → Tree → Tree → Prop where
  | none {scope : Nat} {t : Tree} : Enters (.nodes []) scope t t
  | more {node : Node} {nodes : List Node} {scope : Nat} {t t' t'' : Tree} :
      Enters (.node node) scope t t' → Enters (.nodes nodes) scope t' t'' →
      Enters (.nodes (node :: nodes)) scope t t''
  | enumeration {name : String} {members : List Node} {scope : Nat} {t t' : Tree} :
      Enters (.members (some 0) members) t.size (t.push scope ⟨name, .enumeration, false⟩) t' →
      Enters (.node (.enumeration name members)) scope t t'
  | memberless {next : Option Int64} {scope : Nat} {t : Tree} : Enters (.members next []) scope t t
  | member {next : Option Int64} {decl : BindingDecl} {value : Int64} {others : List Node}
      {scope : Nat} {t t' : Tree} : memberValue decl next = .ok value →
      Enters (.members (successor? value) others) scope
        (t.push scope (memberDraft (.declared scope) decl value)) t' →
      Enters (.members next (.binding decl :: others)) scope t t'
  | classDecl {name : String} {generics : Option (List String)} {children : List Node} {scope : Nat}
      {t t' : Tree} :
      Enters (.nodes children) t.size
        (t.push scope ⟨name, .classDecl (generics.getD []), false⟩) t' →
      Enters (.node (.classDecl name generics children)) scope t t'
  -- A variable without a getter has a type when it is entered,
  | plain {modifiers : Modifiers} {name : String} {ty init : Option Surface.Expr}
      {declared : Option Ref} {value : Option TypedExpr} {known : Ref} {scope : Nat} {t : Tree} :
      resolveAnnotation t (.declared scope) ty = .ok declared → typeInit t init = .ok value →
      expectDeclared t name declared value = .ok () →
      declared.or (value.map TypedExpr.ty) = some known →
      Enters (.node (.binding ⟨modifiers, name, ty, init, Option.none⟩)) scope t
        (t.push scope ⟨name, .binding modifiers (some known) value, false⟩)
  -- and one with a getter when that has been entered behind it.
  | accessor {modifiers : Modifiers} {name : String} {ty init : Option Surface.Expr}
      {getter : FunctionDecl} {declared : Option Ref} {value : Option TypedExpr} {final : Ref}
      {scope : Nat} {t t' : Tree} :
      resolveAnnotation t (.declared scope) ty = .ok declared → typeInit t init = .ok value →
      expectDeclared t name declared value = .ok () →
      Enters (.function getter) scope (t.push scope
        ⟨name, .binding modifiers (declared.or (value.map TypedExpr.ty)) value, false⟩) t' →
      (declared.or (value.map TypedExpr.ty)).or (returnType? t' (.declared (t.size + 1))) =
        some final →
      Enters (.node (.binding ⟨modifiers, name, ty, init, some getter⟩)) scope t
        (t'.modify t.size (withType final))
  | standing {decl : FunctionDecl} {scope : Nat} {t t' : Tree} :
      Enters (.function decl) scope t t' → Enters (.node (.function decl)) scope t t'
  | function {static : Bool} {name : String} {returnType : Option Surface.Expr}
      {parameters : List Surface.Parameter} {internal : Bool} {children : List Node}
      {declared : Option Ref} {types : List Scope.Parameter} {results : Results} {scope : Nat}
      {t t' : Tree} :
      resolveAnnotation t (.declared scope) returnType = .ok declared →
      resolveParameters t (.declared scope) parameters = .ok types →
      Enters (.body name ⟨declared, []⟩ results children) t.size
        (t.push scope ⟨name, .function static [] declared types [], internal⟩) t' →
      Enters (.function ⟨static, name, returnType, parameters, internal, children⟩) scope t
        (t'.modify t.size (withResults results.returnType results.returns))
  | bodyEnd {name : String} {results : Results} {scope : Nat} {t : Tree} :
      Enters (.body name results results []) scope t t
  | bodyBinding {name : String} {before after : Results} {decl : BindingDecl} {nodes : List Node}
      {scope : Nat} {t t' t'' : Tree} : Enters (.node (.binding decl)) scope t t' →
      Enters (.body name before after nodes) scope t' t'' →
      Enters (.body name before after (.binding decl :: nodes)) scope t t''
  | bodyReturn {name : String} {before between after : Results} {value : Surface.Expr} {e : TypedExpr}
      {nodes : List Node} {scope : Nat} {t t' : Tree} : typeExpr t value = .ok e →
      before.add t name e = .ok between → Enters (.body name between after nodes) scope t t' →
      Enters (.body name before after (.ret value :: nodes)) scope t t'

theorem bind_eq_ok {ε α β : Type} {x : Except ε α} {f : α → Except ε β} {b : β} :
    (x >>= f) = .ok b ↔ ∃ a, x = .ok a ∧ f a = .ok b := by
  cases x with
  | error e => exact ⟨nofun, nofun⟩
  | ok a => exact ⟨fun same => ⟨a, rfl, same⟩, fun ⟨_, same, then_⟩ => by cases same; exact then_⟩

theorem returnType?_size {t : Tree} {scope : Nat} {d : Draft} :
    returnType? (t.push scope d) (.declared (t.size + 1)) = none := by
  have beyond : (t.push scope d).get? (.declared (t.size + 1)) = none := by
    rw [← Option.not_isSome_iff_eq_none, get?_isSome, size_push]
    omega
  rw [returnType?, beyond]
  rfl

theorem declareMembers_enters {n : Nat} (members : List Node) {next : Option Int64} {t t' : Tree}
    (declared : declareMembers t n next members = .ok t') : Enters (.members next members) n t t' := by
  induction members generalizing next t with
  | nil => cases declared; exact .memberless
  | cons node others ih =>
    cases node with
    | binding decl =>
      obtain ⟨value, valued, declared⟩ := bind_eq_ok.1 declared
      exact .member valued (ih declared)
    | _ => cases declared

mutual

theorem declare_enters {scope : Nat} : ∀ (node : Node) {t t' : Tree},
    declare t scope node = .ok t' → Enters (.node node) scope t t'
  | .enumeration _ members, _, _, declared =>
    .enumeration (declareMembers_enters members declared)
  | .classDecl _ _ children, _, _, declared =>
    .classDecl (declareAll_enters children declared)
  | .binding decl, _, _, declared => declareBinding_enters decl declared
  | .function decl, _, _, declared => .standing (declareFunction_enters decl declared)

theorem declareAll_enters {scope : Nat} : ∀ (nodes : List Node) {t t' : Tree},
    declareAll t scope nodes = .ok t' → Enters (.nodes nodes) scope t t'
  | [], t, t', declared => by
    cases declared
    exact .none
  | node :: nodes, t, t', declared => by
    obtain ⟨between, first, others⟩ := bind_eq_ok.1 declared
    exact .more (declare_enters node first) (declareAll_enters nodes others)

theorem declareBinding_enters {scope : Nat} : ∀ (decl : BindingDecl) {t t' : Tree},
    declareBinding t scope decl = .ok t' → Enters (.node (.binding decl)) scope t t'
  | ⟨modifiers, name, ty, init, getter⟩, t, t', declared => by
    rw [declareBinding] at declared
    obtain ⟨annotated, resolved, declared⟩ := bind_eq_ok.1 declared
    obtain ⟨value, typed, declared⟩ := bind_eq_ok.1 declared
    obtain ⟨_, expected, declared⟩ := bind_eq_ok.1 declared
    obtain ⟨result, entered, declared⟩ := bind_eq_ok.1 declared
    rw [size_push] at declared
    split at declared
    · cases declared
    · next final known =>
      cases declared
      cases getter with
      | none =>
        cases entered
        rw [returnType?_size, Option.or_none] at known
        rw [modify_push]
        exact .plain resolved typed expected known
      | some getter =>
        exact .accessor resolved typed expected (declareFunction_enters getter entered) known

theorem declareFunction_enters {scope : Nat} : ∀ (decl : FunctionDecl) {t t' : Tree},
    declareFunction t scope decl = .ok t' → Enters (.function decl) scope t t'
  | ⟨static, name, returnType, parameters, internal, children⟩, t, t', declared => by
    rw [declareFunction] at declared
    obtain ⟨known, resolved, declared⟩ := bind_eq_ok.1 declared
    obtain ⟨types, typed, declared⟩ := bind_eq_ok.1 declared
    obtain ⟨⟨result, results⟩, body, declared⟩ := bind_eq_ok.1 declared
    cases declared
    exact .function resolved typed (declareBody_enters children body)

theorem declareBody_enters {scope : Nat} {name : String} : ∀ (nodes : List Node) {t t' : Tree}
    {before after : Results}, declareBody t scope name before nodes = .ok (t', after) →
    Enters (.body name before after nodes) scope t t'
  | [], t, t', before, after, declared => by
    cases declared
    exact .bodyEnd
  | .binding decl :: nodes, t, t', before, after, declared => by
    obtain ⟨between, first, others⟩ := bind_eq_ok.1 declared
    exact .bodyBinding (declareBinding_enters decl first) (declareBody_enters nodes others)
  | .ret value :: nodes, t, t', before, after, declared => by
    obtain ⟨e, typed, declared⟩ := bind_eq_ok.1 declared
    obtain ⟨between, added, declared⟩ := bind_eq_ok.1 declared
    exact .bodyReturn typed added (declareBody_enters nodes declared)

end

end Frontend.Typing
