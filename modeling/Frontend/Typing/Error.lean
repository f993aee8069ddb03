import Frontend.Surface.Node

-- Why a program has no meaning.

namespace Frontend

open Surface (BinaryOperator)

inductive TypingError where
  | undefinedType (name : String)
  -- What `name` is declared as is not what its value is; both types by name.
  | mismatch (name declared inferred : String)
  | unresolvedOperator (op : BinaryOperator) (lhs rhs : String)
  -- No function can implement the operator.
  | unimplementedOperator (op : BinaryOperator)
  -- An expression of this form has no meaning here.
  | unsupportedExpr (form : String)
  -- A declaration of this form has no place here.
  | unsupportedDeclaration (form : String)
  -- Neither the value nor the getter gives the variable a type.
  | untypedVariable (name : String)
  -- A member without a value follows one that has the greatest value.
  | enumOverflow (name : String)
deriving DecidableEq

def TypingError.message : TypingError → String
  | undefinedType name => "undefined type " ++ name
  | mismatch name declared inferred =>
    name ++ " is declared as " ++ declared ++ ", but its value is " ++ inferred
  | unresolvedOperator op lhs rhs =>
    "no operator " ++ op.symbol ++ " for " ++ lhs ++ " and " ++ rhs
  | unimplementedOperator op => "operator " ++ op.symbol ++ " is not implemented"
  | unsupportedExpr form => "unsupported expression: " ++ form
  | unsupportedDeclaration form => "unsupported declaration: " ++ form
  | untypedVariable name => "variable " ++ name ++ " has no type"
  | enumOverflow name => "value of enum member " ++ name ++ " is out of range"

end Frontend
