import Frontend.Typing.Expr

-- From declarations to the scope tree that they describe.  Each declaration is entered into its scope
-- before what it contains is, so that a name means what was declared last before its use.

namespace Frontend.Typing

open Scope (Draft Kind Parameter Ref TypedExpr)
open Surface (BindingDecl FunctionDecl Node)

def memberValue (member : BindingDecl) (next : Option Int64) : Except TypingError Int64 :=
  match member.init with
  | some (.literal (.integer n)) => .ok n
  | some other => .error (.unsupportedExpr other.describe)
  | none =>
    match next with
    | some n => .ok n
    | none => .error (.enumOverflow member.name)

def memberDraft (enumRef : Ref) (member : BindingDecl) (value : Int64) : Draft :=
  let init := TypedExpr.literal (.integer value) Ref.integer
  ⟨member.name, .binding member.modifiers (some enumRef) (some init), false⟩

-- Enters the members of the enum numbered `n`.  A member without a value gets `next`, the one after
-- the previous value.
def declareMembers (t : Scope.Tree) (n : Nat) (next : Option Int64) :
    List Node → Except TypingError Scope.Tree
  | [] => .ok t
  | .binding member :: others => do
    let value ← memberValue member next
    declareMembers (t.push n (memberDraft (.declared n) member value)) n (successor? value) others
  | other :: _ => .error (.unsupportedDeclaration other.describe)

def resolveAnnotation (t : Scope.Tree) (scope : Ref) :
    Option Surface.Expr → Except TypingError (Option Ref)
  | none => .ok none
  | some ty => return some (← resolveType t scope ty)

def typeInit (t : Scope.Tree) : Option Surface.Expr → Except TypingError (Option TypedExpr)
  | none => .ok none
  | some e => return some (← typeExpr t e)

def resolveParameters (t : Scope.Tree) (scope : Ref) :
    List Surface.Parameter → Except TypingError (List Parameter)
  | [] => .ok []
  | p :: ps => do
    let ty ← resolveType t scope p.ty
    let others ← resolveParameters t scope ps
    return ⟨p.modifiers, p.name, ty⟩ :: others

def expectDeclared (t : Scope.Tree) (name : String) (declared : Option Ref)
    (value : Option TypedExpr) : Except TypingError Unit :=
  match declared, value with
  | some ty, some e => expectType t name ty e.ty
  | _, _ => .ok ()

def withType (ty : Ref) (d : Draft) : Draft :=
  match d.kind with
  | .binding modifiers _ init => { d with kind := .binding modifiers (some ty) init }
  | _ => d

def withResults (returnType : Option Ref) (returns : List TypedExpr) (d : Draft) : Draft :=
  match d.kind with
  | .function static generics _ parameters _ =>
    { d with kind := .function static generics returnType parameters returns }
  | _ => d

-- What is known of a function while its body is read: the type of its values, and those values.
structure Results where
  returnType : Option Ref
  returns : List TypedExpr

-- One value more.  The first one decides the type where none is declared.
def Results.add (t : Scope.Tree) (name : String) (results : Results) (e : TypedExpr) :
    Except TypingError Results :=
  match results.returnType with
  | some ty => do
    expectType t name ty e.ty
    return ⟨some ty, results.returns ++ [e]⟩
  | none => return ⟨some e.ty, results.returns ++ [e]⟩

mutual

def declare (t : Scope.Tree) (scope : Nat) : Node → Except TypingError Scope.Tree
  | .enumeration name members =>
    declareMembers (t.push scope ⟨name, .enumeration, false⟩) t.size (some 0) members
  | .classDecl name generics children =>
    declareAll (t.push scope ⟨name, .classDecl (generics.getD []), false⟩) t.size children
  | .binding decl => declareBinding t scope decl
  | .function decl => declareFunction t scope decl
  | .root children => .error (.unsupportedDeclaration (Node.root children).describe)
  | .ret value => .error (.unsupportedDeclaration (Node.ret value).describe)

def declareAll (t : Scope.Tree) (scope : Nat) : List Node → Except TypingError Scope.Tree
  | [] => .ok t
  | node :: nodes => do
    let t ← declare t scope node
    declareAll t scope nodes

-- Enters a variable, and its getter as its next sibling.  The variable has the declared type, or
-- that of its value, or that of its getter.
def declareBinding (t : Scope.Tree) (scope : Nat) : BindingDecl → Except TypingError Scope.Tree
  | ⟨modifiers, name, ty, init, getter⟩ => do
    let declared ← resolveAnnotation t (.declared scope) ty
    let value ← typeInit t init
    expectDeclared t name declared value
    let known := declared.or (value.map TypedExpr.ty)
    let entered := t.push scope ⟨name, .binding modifiers known value, false⟩
    let result ← declareGetter entered scope getter
    -- The getter was entered right behind the variable, before anything in its body.
    match known.or (returnType? result (.declared entered.size)) with
    | none => throw (.untypedVariable name)
    | some ty => return result.modify t.size (withType ty)

def declareGetter (t : Scope.Tree) (scope : Nat) :
    Option FunctionDecl → Except TypingError Scope.Tree
  | none => .ok t
  | some decl => declareFunction t scope decl

def declareFunction (t : Scope.Tree) (scope : Nat) : FunctionDecl → Except TypingError Scope.Tree
  | ⟨static, name, returnType, parameters, internal, children⟩ => do
    let declared ← resolveAnnotation t (.declared scope) returnType
    let types ← resolveParameters t (.declared scope) parameters
    let entered := t.push scope ⟨name, .function static [] declared types [], internal⟩
    -- The values are read while the body is, and are known only afterwards.
    let (result, results) ← declareBody entered t.size name ⟨declared, []⟩ children
    return result.modify t.size (withResults results.returnType results.returns)

def declareBody (t : Scope.Tree) (n : Nat) (name : String) (results : Results) :
    List Node → Except TypingError (Scope.Tree × Results)
  | [] => .ok (t, results)
  | .binding decl :: nodes => do
    let t ← declareBinding t n decl
    declareBody t n name results nodes
  | .ret value :: nodes => do
    let e ← typeExpr t value
    let results ← results.add t name e
    declareBody t n name results nodes
  | other :: _ => .error (.unsupportedDeclaration other.describe)

end

end Frontend.Typing

namespace Frontend

def typeProgram : Surface.Node → Except TypingError Scope.Tree
  | .root children => Typing.declareAll Scope.Tree.empty 0 children
  | other => .error (.unsupportedDeclaration other.describe)

end Frontend
