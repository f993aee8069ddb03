import Frontend.Proofs.ExprVerdicts
import Frontend.Proofs.TypeSoundness

-- The places in a program where expressions are typed.  An expression is typed once all that stands before it
-- is entered, whether or not what stands behind it can be.  If it has no type, its error is the error of the
-- program.

namespace Frontend

namespace Surface

inductive Part where
  | function (name : String)
  | value (written : Expr)
deriving DecidableEq

mutual

-- The functions and the values in a node, in order.  What is in an enum is neither entered as a function nor typed.
def Node.parts : Node → List Part
  | .root children => partsAll children
  | .enumeration _ _ => []
  | .classDecl _ _ children => partsAll children
  | .function decl => decl.parts
  | .binding decl => decl.parts
  | .ret value => [.value value]

def FunctionDecl.parts : FunctionDecl → List Part
  | ⟨_, name, _, _, _, children⟩ => .function name :: partsAll children

def BindingDecl.parts : BindingDecl → List Part
  | ⟨_, _, _, init, getter⟩ => init.toList.map .value ++ getterParts getter

def getterParts : Option FunctionDecl → List Part
  | none => []
  | some decl => decl.parts

def partsAll : List Node → List Part
  | [] => []
  | node :: nodes => node.parts ++ partsAll nodes

end

end Surface

namespace Typing

open Scope (Kind Ref Tree TypedExpr)
open Scope.Tree
open Surface (BindingDecl Expr FunctionDecl Modifiers Node Part)

-- Where the task turns to the expression, which is then typed in the second tree.
inductive Meets : Task → Nat → Tree → Expr → Tree → Prop where
  | first {node : Node} {nodes : List Node} {scope : Nat} {t s : Tree} {e : Expr} : Meets (.node node) scope t e s →
      Meets (.nodes (node :: nodes)) scope t e s
  | later {node : Node} {nodes : List Node} {scope : Nat} {t t' s : Tree} {e : Expr} :
      declare t scope node = .ok t' → Meets (.nodes nodes) scope t' e s → Meets (.nodes (node :: nodes)) scope t e s
  | inClass {name : String} {generics : Option (List String)} {children : List Node} {scope : Nat} {t s : Tree}
      {e : Expr} : Meets (.nodes children) t.size (t.push scope ⟨name, .classDecl (generics.getD []), false⟩) e s →
      Meets (.node (.classDecl name generics children)) scope t e s
  | init {modifiers : Modifiers} {name : String} {ty : Option Expr} {getter : Option FunctionDecl}
      {declared : Option Ref} {scope : Nat} {t : Tree} {e : Expr} :
      resolveAnnotation t (.declared scope) ty = .ok declared →
      Meets (.node (.binding ⟨modifiers, name, ty, some e, getter⟩)) scope t e t
  | inGetter {modifiers : Modifiers} {name : String} {ty init : Option Expr} {getter : FunctionDecl}
      {declared : Option Ref} {value : Option TypedExpr} {scope : Nat} {t s : Tree} {e : Expr} :
      resolveAnnotation t (.declared scope) ty = .ok declared → typeInit t init = .ok value →
      expectDeclared t name declared value = .ok () →
      Meets (.function getter) scope (t.push scope
        ⟨name, .binding modifiers (declared.or (value.map TypedExpr.ty)) value, false⟩) e s →
      Meets (.node (.binding ⟨modifiers, name, ty, init, some getter⟩)) scope t e s
  | standing {decl : FunctionDecl} {scope : Nat} {t s : Tree} {e : Expr} : Meets (.function decl) scope t e s →
      Meets (.node (.function decl)) scope t e s
  | inBody {static : Bool} {name : String} {returnType : Option Expr} {parameters : List Surface.Parameter}
      {internal : Bool} {children : List Node} {declared : Option Ref} {types : List Scope.Parameter}
      {after : Results} {scope : Nat} {t s : Tree} {e : Expr} :
      resolveAnnotation t (.declared scope) returnType = .ok declared →
      resolveParameters t (.declared scope) parameters = .ok types →
      Meets (.body name ⟨declared, []⟩ after children) t.size
        (t.push scope ⟨name, .function static [] declared types [], internal⟩) e s →
      Meets (.function ⟨static, name, returnType, parameters, internal, children⟩) scope t e s
  | inBinding {name : String} {before after : Results} {decl : BindingDecl} {nodes : List Node} {scope : Nat}
      {t s : Tree} {e : Expr} : Meets (.node (.binding decl)) scope t e s →
      Meets (.body name before after (.binding decl :: nodes)) scope t e s
  | behindBinding {name : String} {before after : Results} {decl : BindingDecl} {nodes : List Node} {scope : Nat}
      {t t' s : Tree} {e : Expr} : declareBinding t scope decl = .ok t' →
      Meets (.body name before after nodes) scope t' e s →
      Meets (.body name before after (.binding decl :: nodes)) scope t e s
  | value {name : String} {before after : Results} {nodes : List Node} {scope : Nat} {t : Tree} {e : Expr} :
      Meets (.body name before after (.ret e :: nodes)) scope t e t
  | behindValue {name : String} {before between after : Results} {written : Expr} {typed : TypedExpr}
      {nodes : List Node} {scope : Nat} {t s : Tree} {e : Expr} : typeExpr t written = .ok typed →
      before.add t name typed = .ok between → Meets (.body name between after nodes) scope t e s →
      Meets (.body name before after (.ret written :: nodes)) scope t e s

variable {task : Task} {scope : Nat} {t t' s : Tree} {e : Expr} {error : TypingError}

def Task.parts : Task → List Part
  | .node written => written.parts
  | .nodes written | .body _ _ _ written => Surface.partsAll written
  | .members _ _ => []
  | .function decl => decl.parts

theorem Enters.operatorless_after (enters : Enters task scope t t') (plusless : .function "+" ∉ task.parts)
    (operatorless : Operatorless t) : Operatorless t' := by
  induction enters with
  | none | memberless | bodyEnd => exact operatorless
  | more _ _ first others | bodyBinding _ _ first others =>
    obtain ⟨here, there⟩ := not_or.1 (mt List.mem_append.2 plusless)
    exact others there (first here operatorless)
  | enumeration _ inner => exact inner List.not_mem_nil (operatorless_push operatorless nofun)
  | member _ _ inner => exact inner List.not_mem_nil (operatorless_push operatorless nofun)
  | classDecl _ inner => exact inner plusless (operatorless_push operatorless nofun)
  | plain => exact operatorless_push operatorless nofun
  | accessor _ _ _ _ _ inner =>
    obtain ⟨-, there⟩ := not_or.1 (mt List.mem_append.2 plusless)
    exact (withType_mild _).operatorless.2 (inner there (operatorless_push operatorless nofun))
  | standing _ inner => exact inner plusless operatorless
  | bodyReturn _ _ _ inner => exact inner (mt (List.mem_append_right _) plusless) operatorless
  | function _ _ _ inner =>
    obtain ⟨other, there⟩ := not_or.1 (mt List.mem_cons.2 plusless)
    refine (withResults_mild _ _).operatorless.2 (inner there (operatorless_push operatorless fun _ => ?_))
    rintro rfl
    exact other rfl

theorem Meets.operatorless (meets : Meets task scope t e s) (plusless : .function "+" ∉ task.parts)
    (operatorless : Operatorless t) : Operatorless s := by
  induction meets with
  | init | value => exact operatorless
  | first _ inner | inBinding _ inner => exact inner (mt (List.mem_append_left _) plusless) operatorless
  | later declared _ inner =>
    obtain ⟨here, there⟩ := not_or.1 (mt List.mem_append.2 plusless)
    exact inner there ((declare_enters _ declared).operatorless_after here operatorless)
  | behindBinding declared _ inner =>
    obtain ⟨here, there⟩ := not_or.1 (mt List.mem_append.2 plusless)
    exact inner there ((declareBinding_enters _ declared).operatorless_after here operatorless)
  | inClass _ inner => exact inner plusless (operatorless_push operatorless nofun)
  | inGetter _ _ _ _ inner =>
    exact inner (mt (List.mem_append_right _) plusless) (operatorless_push operatorless nofun)
  | standing _ inner => exact inner plusless operatorless
  | inBody _ _ _ inner =>
    obtain ⟨other, there⟩ := not_or.1 (mt List.mem_cons.2 plusless)
    refine inner there (operatorless_push operatorless fun _ => ?_)
    rintro rfl
    exact other rfl
  | behindValue _ _ _ inner => exact inner (mt (List.mem_append_right _) plusless) operatorless

def Task.Fails (error : TypingError) (scope : Nat) (t : Tree) : Task → Prop
  | .node written => declare t scope written = .error error
  | .nodes written => declareAll t scope written = .error error
  | .members next written => declareMembers t scope next written = .error error
  | .function decl => declareFunction t scope decl = .error error
  | .body name before _ written => declareBody t scope name before written = .error error

theorem Meets.fails (meets : Meets task scope t e s) (failed : typeExpr s e = .error error) :
    task.Fails error scope t := by
  induction meets with
  | first _ inner =>
    have inner : declare _ _ _ = _ := inner failed
    rw [Task.Fails, declareAll, inner]
    rfl
  | later declared _ inner =>
    rw [Task.Fails, declareAll, declared]
    exact inner failed
  | inClass _ inner => exact inner failed
  | init resolved =>
    rw [Task.Fails, declare, declareBinding, resolved, typeInit, failed]
    rfl
  | inGetter resolved typed expected _ inner =>
    have inner : declareFunction _ _ _ = _ := inner failed
    rw [Task.Fails, declare, declareBinding, resolved, typed]
    simp only [Bind.bind, Except.bind, expected, declareGetter, inner]
  | standing _ inner => exact inner failed
  | inBody resolved typed _ inner =>
    have inner : declareBody _ _ _ _ _ = _ := inner failed
    rw [Task.Fails, declareFunction, resolved, typed]
    simp only [Bind.bind, Except.bind, inner]
  | inBinding _ inner =>
    have inner : declare _ _ _ = _ := inner failed
    rw [declare] at inner
    rw [Task.Fails, declareBody, inner]
    rfl
  | behindBinding declared _ inner =>
    rw [Task.Fails, declareBody, declared]
    exact inner failed
  | value =>
    rw [Task.Fails, declareBody, failed]
    rfl
  | behindValue typed added _ inner =>
    rw [Task.Fails, declareBody, typed]
    simp only [Bind.bind, Except.bind, added]
    exact inner failed

def Task.Done (scope : Nat) (t t' : Tree) : Task → Prop
  | .node written => declare t scope written = .ok t'
  | .nodes written => declareAll t scope written = .ok t'
  | .members next written => declareMembers t scope next written = .ok t'
  | .function decl => declareFunction t scope decl = .ok t'
  | .body name before after written => declareBody t scope name before written = .ok (t', after)

theorem Enters.done (enters : Enters task scope t t') : task.Done scope t t' := by
  induction enters with
  | none | memberless | bodyEnd => rfl
  | more _ _ first others =>
    rw [Task.Done, declareAll]
    exact bind_eq_ok.2 ⟨_, first, others⟩
  | enumeration _ inner | classDecl _ inner | standing _ inner => exact inner
  | member valued _ inner =>
    rw [Task.Done, declareMembers]
    exact bind_eq_ok.2 ⟨_, valued, inner⟩
  | plain resolved typed expected known =>
    rw [Task.Done, declare, declareBinding, resolved, typed]
    simp only [Bind.bind, Except.bind, expected, declareGetter, size_push, returnType?_size, Option.or_none, known]
    rw [modify_push]
    rfl
  | accessor resolved typed expected _ known inner =>
    have inner : declareFunction _ _ _ = _ := inner
    rw [Task.Done, declare, declareBinding, resolved, typed]
    simp only [Bind.bind, Except.bind, expected, declareGetter, size_push, inner, known]
    rfl
  | function resolved typed _ inner =>
    have inner : declareBody _ _ _ _ _ = _ := inner
    rw [Task.Done, declareFunction, resolved, typed]
    simp only [Bind.bind, Except.bind, inner]
    rfl
  | bodyBinding _ _ first others =>
    have first : declare _ _ _ = _ := first
    rw [declare] at first
    rw [Task.Done, declareBody]
    exact bind_eq_ok.2 ⟨_, first, others⟩
  | bodyReturn typed added _ inner =>
    rw [Task.Done, declareBody]
    exact bind_eq_ok.2 ⟨_, typed, bind_eq_ok.2 ⟨_, added, inner⟩⟩

theorem init_of_part {init : Option Expr} (among : .value e ∈ init.toList.map Part.value) : init = some e := by
  cases init with
  | none => cases among
  | some written =>
    cases List.mem_singleton.1 among
    rfl

theorem Enters.meets (enters : Enters task scope t t') (among : .value e ∈ task.parts) :
    ∃ s, Meets task scope t e s := by
  induction enters with
  | none | memberless | bodyEnd => cases among
  | enumeration _ inner | member _ _ inner => cases among
  | more first _ here there =>
    rcases List.mem_append.1 among with among | among
    · obtain ⟨s, meets⟩ := here among
      exact ⟨s, .first meets⟩
    · obtain ⟨s, meets⟩ := there among
      exact ⟨s, .later first.done meets⟩
  | classDecl _ inner =>
    obtain ⟨s, meets⟩ := inner among
    exact ⟨s, .inClass meets⟩
  | plain resolved =>
    rcases List.mem_append.1 among with among | among
    · cases init_of_part among
      exact ⟨_, .init resolved⟩
    · cases among
  | accessor resolved typed expected _ known inner =>
    rcases List.mem_append.1 among with among | among
    · cases init_of_part among
      exact ⟨_, .init resolved⟩
    · obtain ⟨s, meets⟩ := inner among
      exact ⟨s, .inGetter resolved typed expected meets⟩
  | standing _ inner =>
    obtain ⟨s, meets⟩ := inner among
    exact ⟨s, .standing meets⟩
  | function resolved typed _ inner =>
    rcases List.mem_cons.1 among with same | among
    · cases same
    · obtain ⟨s, meets⟩ := inner among
      exact ⟨s, .inBody resolved typed meets⟩
  | bodyBinding first _ here there =>
    rcases List.mem_append.1 among with among | among
    · obtain ⟨s, meets⟩ := here among
      exact ⟨s, .inBinding meets⟩
    · obtain ⟨s, meets⟩ := there among
      have declared : declare _ _ _ = _ := first.done
      rw [declare] at declared
      exact ⟨s, .behindBinding declared meets⟩
  | bodyReturn typed added _ inner =>
    rcases List.mem_append.1 among with among | among
    · cases List.mem_singleton.1 among
      exact ⟨_, .value⟩
    · obtain ⟨s, meets⟩ := inner among
      exact ⟨s, .behindValue typed added meets⟩

end Typing

open Typing

-- The analysis of the program turns to the expression, which is then typed in the tree.
inductive MeetsIn : Surface.Node → Surface.Expr → Scope.Tree → Prop where
  | root {children : List Surface.Node} {e : Surface.Expr} {s : Scope.Tree} :
      Meets (.nodes children) 0 .empty e s → MeetsIn (.root children) e s

variable {root : Surface.Node} {e : Surface.Expr} {s t : Scope.Tree} {error : TypingError}

theorem MeetsIn.operatorless (meets : MeetsIn root e s) (plusless : .function "+" ∉ root.parts) :
    s.Operatorless := by
  cases meets with
  | root meets => exact meets.operatorless plusless operatorless_empty

theorem MeetsIn.fails (meets : MeetsIn root e s) (failed : typeExpr s e = .error error) :
    typeProgram root = .error error := by
  cases meets with
  | root meets => exact meets.fails failed

theorem meets_all (typed : typeProgram root = .ok t) (among : .value e ∈ root.parts) : ∃ s, MeetsIn root e s := by
  cases root with
  | root children =>
    obtain ⟨s, meets⟩ := (declareAll_enters children typed).meets among
    exact ⟨s, .root meets⟩
  | _ => cases typed

end Frontend
