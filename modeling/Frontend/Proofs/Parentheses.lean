import Frontend.Proofs.MetExpressions
import Frontend.Proofs.Scanning

-- Programs without their parentheses.  Parentheses in the values of a program do not change its meaning, nor
-- its error.

namespace Frontend

namespace Surface

mutual

-- The node without the parentheses in its values.  Enums stay, since a member is not given a value in parentheses.
def Node.bare : Node → Node
  | .root children => .root (bareNodes children)
  | .enumeration name members => .enumeration name members
  | .classDecl name generics children => .classDecl name generics (bareNodes children)
  | .function decl => .function decl.bare
  | .binding decl => .binding decl.bare
  | .ret value => .ret value.bare

def FunctionDecl.bare : FunctionDecl → FunctionDecl
  | ⟨static, name, returnType, parameters, internal, children⟩ =>
    ⟨static, name, returnType, parameters, internal, bareNodes children⟩

def BindingDecl.bare : BindingDecl → BindingDecl
  | ⟨modifiers, name, ty, init, getter⟩ => ⟨modifiers, name, ty, init.map Expr.bare, bareGetter getter⟩

def bareGetter : Option FunctionDecl → Option FunctionDecl
  | none => none
  | some decl => some decl.bare

def bareNodes : List Node → List Node
  | [] => []
  | node :: nodes => node.bare :: bareNodes nodes

end

end Surface

namespace Typing

open Scope (Tree)
open Surface (BindingDecl Expr FunctionDecl Node)

theorem typeInit_bare (t : Tree) (init : Option Expr) : typeInit t (init.map Expr.bare) = typeInit t init := by
  cases init with
  | none => rfl
  | some e => rw [Option.map_some, typeInit, typeInit, typeExpr_bare]

mutual

theorem declare_bare (t : Tree) (scope : Nat) : ∀ node : Node, declare t scope node.bare = declare t scope node
  | .enumeration _ _ => rfl
  | .classDecl name generics children => by
    rw [Node.bare, declare, declareAll_bare _ _ children, declare]
  | .binding decl => by rw [Node.bare, declare, declareBinding_bare t scope decl, declare]
  | .function decl => by rw [Node.bare, declare, declareFunction_bare t scope decl, declare]
  | .root _ | .ret _ => rfl

theorem declareAll_bare (t : Tree) (scope : Nat) :
    ∀ nodes : List Node, declareAll t scope (Surface.bareNodes nodes) = declareAll t scope nodes
  | [] => rfl
  | node :: nodes => by
    rw [Surface.bareNodes, declareAll, declareAll, declare_bare t scope node]
    congr 1
    funext t'
    exact declareAll_bare t' scope nodes

theorem declareBinding_bare (t : Tree) (scope : Nat) :
    ∀ decl : BindingDecl, declareBinding t scope decl.bare = declareBinding t scope decl
  | ⟨modifiers, name, ty, init, getter⟩ => by
    have inner (t : Tree) : declareGetter t scope (Surface.bareGetter getter) = declareGetter t scope getter := by
      cases getter with
      | none => rfl
      | some decl => exact declareFunction_bare t scope decl
    simp only [BindingDecl.bare, declareBinding, typeInit_bare, inner]

theorem declareFunction_bare (t : Tree) (scope : Nat) :
    ∀ decl : FunctionDecl, declareFunction t scope decl.bare = declareFunction t scope decl
  | ⟨static, name, returnType, parameters, internal, children⟩ => by
    simp only [FunctionDecl.bare, declareFunction, declareBody_bare _ _ _ _ children]

theorem declareBody_bare (t : Tree) (n : Nat) (name : String) (results : Results) :
    ∀ nodes : List Node, declareBody t n name results (Surface.bareNodes nodes) = declareBody t n name results nodes
  | [] => rfl
  | .binding decl :: nodes => by
    rw [Surface.bareNodes, Node.bare, declareBody, declareBody, declareBinding_bare t n decl]
    congr 1
    funext t'
    exact declareBody_bare t' n name results nodes
  | .ret value :: nodes => by
    rw [Surface.bareNodes, Node.bare, declareBody, declareBody, typeExpr_bare]
    congr 1
    funext e
    congr 1
    funext results'
    exact declareBody_bare t n name results' nodes
  | .enumeration _ _ :: _ | .classDecl _ _ _ :: _ | .function _ :: _ | .root _ :: _ => rfl

end

end Typing

open Typing
open Surface (Expr Node)

theorem typeProgram_bare (root : Node) : typeProgram root.bare = typeProgram root := by
  cases root with
  | root children => exact declareAll_bare _ 0 children
  | _ => rfl

-- Where no function is named like an operator, every value that is typed is a literal or a sum of integer literals,
-- or it has the error of its first node without a meaning.  That error is then the error of the program, and a program
-- without an error has all its values typed.  Parentheses in the values change nothing.
theorem values_typed_exactly {root : Node} (plusless : .function "+" ∉ root.parts) :
    (∀ e s, MeetsIn root e s →
        Verdict s e ∧ ∀ error, typeExpr s e = .error error → typeProgram root = .error error) ∧
      (∀ t, typeProgram root = .ok t → ∀ e, .value e ∈ root.parts → ∃ s, MeetsIn root e s) ∧
      ∀ root' : Node, root'.bare = root.bare → typeProgram root' = typeProgram root := by
  refine ⟨fun e s meets => ⟨?_, fun error => meets.fails⟩, fun t typed e => meets_all typed, fun root' same => ?_⟩
  · exact verdict_of_operatorless (meets.operatorless plusless) e
  · rw [← typeProgram_bare root', same, typeProgram_bare]

-- The sum is one of integers, the mixed one of an integer and a double.
theorem mixed_sum_refused :
    let integer (n : Int64) : Expr := .literal (.integer n)
    let sum : Expr := .binary .add (.grouping (.binary .add (integer 1) (.grouping (integer 2)))) (integer 3)
    let mixed : Expr := .grouping (.binary .add (integer 1) (.grouping (.literal (.double ⟨4609434218613702656⟩))))
    let program (e : Expr) : Node := .root [.binding ⟨.var, "a", none, some e, none⟩]
    (.function "+" ∉ (program sum).parts ∧ MeetsIn (program sum) sum .empty ∧
        ∃ value, typeExpr .empty sum = .ok value ∧ value.ty = Scope.Ref.integer) ∧
      .function "+" ∉ (program mixed).parts ∧ MeetsIn (program mixed) mixed .empty ∧
      typeProgram (program mixed) = .error (.unresolvedOperator .add "Integer" "Double") ∧
      typeProgram (program mixed.bare) = typeProgram (program mixed) := by
  intro integer sum mixed program
  have plusless (e : Expr) : .function "+" ∉ (program e).parts := by
    simp [program, Node.parts, Surface.partsAll, Surface.BindingDecl.parts, Surface.getterParts]
  have met (e : Expr) : MeetsIn (program e) e .empty := .root (.first (.init rfl))
  have means : sum.bare.Means Scope.Ref.integer :=
    means_integer.2 (.add (.add (.literal 1) (.literal 2)) (.literal 3))
  obtain ⟨sums, -⟩ := values_typed_exactly (plusless sum)
  obtain ⟨mixes, -, alike⟩ := values_typed_exactly (plusless mixed)
  obtain ⟨verdict, refuses⟩ := mixes mixed .empty (met mixed)
  exact ⟨⟨plusless sum, met sum, ((sums sum .empty (met sum)).1.typed _).2 means⟩, plusless mixed, met mixed,
    refuses _ ((verdict.refused _).2 rfl), alike _ rfl⟩

namespace Surface

mutual

-- All the nodes of an expression from left to right, each behind the ones in it.
def Expr.inOrder : Expr → List Expr
  | .literal v => [.literal v]
  | .ident name generics => inOrderGenerics generics ++ [.ident name generics]
  | .unary op operand => operand.inOrder ++ [.unary op operand]
  | .binary op lhs rhs => lhs.inOrder ++ rhs.inOrder ++ [.binary op lhs rhs]
  | .grouping inner => inner.inOrder ++ [.grouping inner]
  | .call callee args => callee.inOrder ++ inOrderAll args ++ [.call callee args]
  | .interpolation parts => inOrderAll parts ++ [.interpolation parts]

def Expr.inOrderGenerics : Option (List Expr) → List Expr
  | none => []
  | some args => inOrderAll args

def Expr.inOrderAll : List Expr → List Expr
  | [] => []
  | x :: xs => x.inOrder ++ inOrderAll xs

end

end Surface

-- The product stands in front of the negation, but the negation is what the error is about.
theorem negated_product_unseen :
    let one : Expr := .literal (.integer 1)
    let two : Expr := .literal (.integer 2)
    let e : Expr := .unary .negate (.grouping (.binary .mul one two))
    let root : Node := .root [.binding ⟨.var, "a", none, some e, none⟩]
    readProgram "var a = -(1 * 2);" = .ok root ∧ .function "+" ∉ root.parts ∧ MeetsIn root e .empty ∧
      typeExpr .empty e = .error (.unsupportedExpr "unary expression") ∧
      e.inOrder.findSome? Expr.offence = some (.unimplementedOperator .mul) := by
  intro one two e root
  have read : readProgram "var a = -(1 * 2);" = .ok root := ok_of_toOption (by decide +kernel)
  exact ⟨read, by decide, .root (.first (.init rfl)), rfl, rfl⟩

end Frontend
