-- The kinds of tokens, with the names that messages use for them, and the spellings of the keywords and of
-- the symbols.

namespace Frontend

inductive TokenKind where
  | varKeyword
  | valKeyword
  | enumKeyword
  | classKeyword
  | getKeyword
  | returnKeyword
  | trueKeyword
  | falseKeyword
  | plus
  | minus
  | star
  | slash
  | bang
  | assign
  | equal
  | notEqual
  | less
  | lessEqual
  | greater
  | greaterEqual
  | colon
  | semicolon
  | comma
  | dot
  | dotDot
  | leftParen
  | rightParen
  | leftBracket
  | rightBracket
  | leftBrace
  | rightBrace
  | stringBegin
  -- The quote that closes a string, or the end of the input in its place.
  | stringEnd
  -- Literal text inside a string; it may be empty.
  | stringText
  | integer
  | double
  | identifier
deriving DecidableEq, Inhabited

namespace TokenKind

def name : TokenKind → String
  | varKeyword => "Var"
  | valKeyword => "Val"
  | enumKeyword => "Enum"
  | classKeyword => "Class"
  | getKeyword => "Get"
  | returnKeyword => "Return"
  | trueKeyword => "True"
  | falseKeyword => "False"
  | plus => "Plus"
  | minus => "Minus"
  | star => "Star"
  | slash => "Slash"
  | bang => "Not"
  | assign => "Assign"
  | equal => "EqEq"
  | notEqual => "NotEq"
  | less => "Less"
  | lessEqual => "LessEq"
  | greater => "Greater"
  | greaterEqual => "GreaterEq"
  | colon => "Colon"
  | semicolon => "Semicolon"
  | comma => "Comma"
  | dot => "Dot"
  | dotDot => "DotDot"
  | leftParen => "LParen"
  | rightParen => "RParen"
  | leftBracket => "LBracket"
  | rightBracket => "RBracket"
  | leftBrace => "LBrace"
  | rightBrace => "RBrace"
  | stringBegin => "StringBegin"
  | stringEnd => "StringEnd"
  | stringText => "StringText"
  | integer => "Integer"
  | double => "Double"
  | identifier => "Identifier"

def names (kinds : List TokenKind) : String := "[" ++ ", ".intercalate (kinds.map name) ++ "]"

def ofWord (word : List Char) : TokenKind :=
  if word = ['v', 'a', 'r'] then varKeyword
  else if word = ['v', 'a', 'l'] then valKeyword
  else if word = ['e', 'n', 'u', 'm'] then enumKeyword
  else if word = ['c', 'l', 'a', 's', 's'] then classKeyword
  else if word = ['g', 'e', 't'] then getKeyword
  else if word = ['r', 'e', 't', 'u', 'r', 'n'] then returnKeyword
  else if word = ['t', 'r', 'u', 'e'] then trueKeyword
  else if word = ['f', 'a', 'l', 's', 'e'] then falseKeyword
  else identifier

def ofPair? (first second : Char) : Option TokenKind :=
  match first, second with
  | '=', '=' => some equal
  | '!', '=' => some notEqual
  | '<', '=' => some lessEqual
  | '>', '=' => some greaterEqual
  | '.', '.' => some dotDot
  | _, _ => none

def ofSymbol? (c : Char) : Option TokenKind :=
  match c with
  | '+' => some plus
  | '-' => some minus
  | '*' => some star
  | '/' => some slash
  | ':' => some colon
  | ';' => some semicolon
  | ',' => some comma
  | '(' => some leftParen
  | ')' => some rightParen
  | '[' => some leftBracket
  | ']' => some rightBracket
  | '{' => some leftBrace
  | '}' => some rightBrace
  | '=' => some assign
  | '!' => some bang
  | '<' => some less
  | '>' => some greater
  | '.' => some dot
  | _ => none

end TokenKind

end Frontend
