import Frontend.Scope.Lookup
import Frontend.Typing.Error

-- What types and expressions mean in a scope tree.

namespace Frontend.Typing

open Scope (Primitive Ref TypedExpr)
open Surface (BinaryOperator)

mutual

-- The entry that a type means in `scope`.  Type arguments have to mean something too, but do not
-- matter for the result.
def resolveType (t : Scope.Tree) (scope : Ref) : Surface.Expr → Except TypingError Ref
  | .ident name generics =>
    match t.findType scope name with
    | none => .error (.undefinedType name)
    | some id => do
      resolveGenerics t scope generics
      return id
  | other => .error (.unsupportedExpr other.describe)

def resolveGenerics (t : Scope.Tree) (scope : Ref) :
    Option (List Surface.Expr) → Except TypingError Unit
  | none => return ()
  | some args => resolveTypes t scope args

def resolveTypes (t : Scope.Tree) (scope : Ref) : List Surface.Expr → Except TypingError Unit
  | [] => return ()
  | x :: xs => do
    let _ ← resolveType t scope x
    resolveTypes t scope xs

end

-- The name of the functions that implement an operator, if functions can.
def operatorFunction? : BinaryOperator → Option String
  | .add => some "+"
  | _ => none

def returnType? (t : Scope.Tree) (id : Ref) : Option Ref :=
  (t.get? id).bind fun e =>
    match e.kind with
    | .function _ _ returnType _ _ => returnType
    | _ => none

-- The type of an operation on operands of the types `lhs` and `rhs`.
--
-- The function that implements it is looked for from the type of the left operand, and then from that of
-- the right one.
def operationType (t : Scope.Tree) (op : BinaryOperator) (lhs rhs : Ref) : Except TypingError Ref :=
  match operatorFunction? op with
  | none => .error (.unimplementedOperator op)
  | some name =>
    let function :=
      (t.findFunction lhs name [lhs, rhs]).or (t.findFunction rhs name [lhs, rhs])
    match function.bind (returnType? t) with
    | some ty => .ok ty
    | none => .error (.unresolvedOperator op (t.name lhs) (t.name rhs))

-- An expression with its types.  Parentheses leave no trace.
def typeExpr (t : Scope.Tree) : Surface.Expr → Except TypingError TypedExpr
  | .literal v => .ok (.literal v (Ref.primitive (Primitive.ofValue v)))
  | .grouping inner => typeExpr t inner
  | .binary op lhs rhs => do
    let left ← typeExpr t lhs
    let right ← typeExpr t rhs
    let ty ← operationType t op left.ty right.ty
    return .binary op left right ty
  | other => .error (.unsupportedExpr other.describe)

def expectType (t : Scope.Tree) (name : String) (declared inferred : Ref) :
    Except TypingError Unit :=
  if declared = inferred then .ok ()
  else .error (.mismatch name (t.name declared) (t.name inferred))

end Frontend.Typing
