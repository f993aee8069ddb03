import Frontend.Grammar.Reading
import Frontend.Surface.Expr

-- The grammar of types and expressions.
--
--     type    ::= ID ['<' type (',' type)* '>']
--     expr    ::= expr op expr | prefixed
--     prefixed ::= ('!' | '-') prefixed | postfix ['..' postfix]
--     postfix ::= primary ('.' ID | '(' args ')' | '[' args ']')*
--     primary ::= true | false | integer | double | string | type
--               | '(' expr ')' | '[' args ']'
--
-- Operators of the same level associate to the left; a higher level binds more tightly.

namespace Frontend.Grammar

open Surface TokenSource

def binaryOperator? : TokenKind → Option (BinaryOperator × Nat)
  | .equal => some (.equal, 0)
  | .notEqual => some (.notEqual, 0)
  | .less => some (.less, 1)
  | .lessEqual => some (.lessEqual, 1)
  | .greater => some (.greater, 1)
  | .greaterEqual => some (.greaterEqual, 1)
  | .plus => some (.add, 2)
  | .minus => some (.sub, 2)
  | .star => some (.mul, 3)
  | .slash => some (.div, 3)
  | _ => none

variable {σ : Type} [TokenSource σ]

def closedGenerics (type : Rule σ Expr) : Rule σ (List Expr) := do
  let _ ← expect .less
  let first ← type
  let others ← afterCommas type
  let _ ← expect .greater
  return first :: others

-- The type arguments behind a name, if there are any.
--
-- A `<` opens type arguments only if a `>` closes them.  Otherwise it is left to be a comparison.
def genericsAfterName (type : Rule σ Expr) : Rule σ (Option (List Expr)) := do
  if ← isNext .less then
    attempt (closedGenerics type)
  else
    return none

def typeStep (type : Unit → Rule σ Expr) (_ : Unit) : Rule σ Expr := do
  let name ← identifier
  let generics ← genericsAfterName (type ())
  return .ident name generics

def typeExpr : Rule σ Expr := recurse typeStep ()

-- A literal text of a string, left out where it is empty.
def textPiece (text : String) : List Expr :=
  if text = "" then [] else [.literal (.string text)]

def stringText : Rule σ (String × Bool) := do
  let text ← expect .stringText
  let close ← accept? .stringEnd
  return (text.text, close.isSome)

def leaveSegment : Rule σ Unit := do
  let _ ← expect .rightBrace
  ofStep resumeText

def stringStep (expr : Rule σ Expr) (rest : Unit → Rule σ (List Expr × Bool)) (_ : Unit) :
    Rule σ (List Expr × Bool) := do
  match ← stringText with
  | (text, true) => return (textPiece text, false)
  | (text, false) =>
    let e ← expr
    leaveSegment
    let (parts, _) ← rest ()
    return (textPiece text ++ e :: parts, true)

-- The literal texts and expressions of a string from behind its opening quote, and whether there
-- are expressions.  Empty texts are left out.
def stringParts (expr : Rule σ Expr) : Rule σ (List Expr × Bool) := recurse (stringStep expr) ()

def stringExpr (expr : Rule σ Expr) : Rule σ Expr := do
  match ← stringParts expr with
  | (parts, true) => return .interpolation parts
  | (parts, false) => return parts.head?.getD (.literal (.string ""))

def primaryAfter (expr : Rule σ Expr) (token : Token) : Rule σ Expr :=
  match token.kind with
  | .trueKeyword | .falseKeyword | .integer | .double =>
    match token.value with
    | some value => return .literal value
    | none => failAt token.span (.unexpectedInExpr token.kind)
  | .identifier => do
    let generics ← genericsAfterName typeExpr
    return .ident token.text generics
  | .leftParen => do
    let inner ← expr
    let _ ← expect .rightParen
    return .grouping inner
  | .leftBracket => do
    let items ← itemsUntil .rightBracket expr
    let _ ← expect .rightBracket
    return .listOf items
  | .stringBegin => stringExpr expr
  | other => failAt token.span (.unexpectedInExpr other)

def primary (expr : Rule σ Expr) : Rule σ Expr := do
  primaryAfter expr (← advance)

def suffixStep (expr : Rule σ Expr) (more : Expr → Rule σ Expr) (e : Expr) : Rule σ Expr := do
  match ← currentKind with
  | some .dot =>
    let _ ← advance
    let name ← identifier
    more (e.memberOf name)
  | some .leftParen =>
    let _ ← advance
    let args ← itemsUntil .rightParen expr
    let _ ← expect .rightParen
    more (.call e args)
  | some .leftBracket =>
    let _ ← advance
    let args ← itemsUntil .rightBracket expr
    let _ ← expect .rightBracket
    more (e.elementOf args)
  | _ => return e

def suffixes (expr : Rule σ Expr) : Expr → Rule σ Expr := recurse (suffixStep expr)

def postfixed (expr : Rule σ Expr) : Rule σ Expr := do
  suffixes expr (← primary expr)

-- An operand, or two with the points of a range between them.
def rangeExpr (expr : Rule σ Expr) : Rule σ Expr := do
  let first ← postfixed expr
  match ← accept? .dotDot with
  | none => return first
  | some _ => return .rangeOf first (← postfixed expr)

def prefixStep (expr : Rule σ Expr) (operand : Unit → Rule σ Expr) (_ : Unit) : Rule σ Expr := do
  match ← accept? .bang with
  | some _ => return .unary .not (← operand ())
  | none =>
    match ← accept? .minus with
    | some _ => return .unary .negate (← operand ())
    | none => rangeExpr expr

def prefixed (expr : Rule σ Expr) : Rule σ Expr := recurse (prefixStep expr) ()

def operationStep (operand : Nat → Rule σ Expr) (level : Nat) (more : Expr → Rule σ Expr)
    (lhs : Expr) : Rule σ Expr := do
  match (← currentKind).bind binaryOperator? with
  | none => return lhs
  | some (op, opLevel) =>
    -- An operator of a lower level is left to a caller that asked for it.
    if opLevel < level then
      return lhs
    else
      let _ ← advance
      -- Operators of the same level go on to the left, so the right operand holds higher ones only.
      let rhs ← operand (opLevel + 1)
      more (.binary op lhs rhs)

-- Applies the operators of at least the given level that follow an expression, from left to right.
-- `operand` reads an operand in which the operators of at least the level asked for are already
-- applied.
def operations (operand : Nat → Rule σ Expr) (level : Nat) : Expr → Rule σ Expr :=
  recurse (operationStep operand level)

def exprStep (operand : Nat → Rule σ Expr) (level : Nat) : Rule σ Expr := do
  operations operand level (← prefixed (operand 0))

def exprFrom : Nat → Rule σ Expr := recurse exprStep

def expr : Rule σ Expr := exprFrom 0

end Frontend.Grammar
