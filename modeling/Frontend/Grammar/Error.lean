import Frontend.Token.Basic

-- Why a sequence of tokens is no program.

namespace Frontend

inductive SyntaxError where
  | unexpected (expected actual : TokenKind)
  | unexpectedAny (expected : List TokenKind) (actual : TokenKind)
  -- The input is over where a token is needed.
  | unexpectedEnd
  -- No expression starts with this kind of token.
  | unexpectedInExpr (actual : TokenKind)
  -- A variable needs a type, an initial value or a getter.
  | untypedVariable (name : String)
  -- A member without a value follows one that has the greatest value.
  | enumValueOverflow
deriving DecidableEq

def SyntaxError.message : SyntaxError → String
  | unexpected expected actual =>
    "expected token " ++ expected.name ++ ", but got " ++ actual.name
  | unexpectedAny expected actual =>
    "expected one of " ++ TokenKind.names expected ++ ", but got " ++ actual.name
  | unexpectedEnd => "unexpected end of input"
  | unexpectedInExpr actual => "unexpected token " ++ actual.name ++ " in expression"
  | untypedVariable name => "variable " ++ name ++ " has neither a type nor an initializer"
  | enumValueOverflow => "enum member value out of range"

-- Why a source cannot be read as a tree: its characters are no tokens, or its tokens no program.
inductive ReadError where
  | lexical (error : Located LexicalError)
  | grammatical (error : Located SyntaxError)
deriving DecidableEq

namespace ReadError

def isLexical : ReadError → Bool
  | lexical _ => true
  | grammatical _ => false

def span : ReadError → Span
  | lexical e => e.span
  | grammatical e => e.span

def message : ReadError → String
  | lexical e => e.message LexicalError.message
  | grammatical e => e.message SyntaxError.message

end ReadError

end Frontend
