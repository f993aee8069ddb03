import Frontend.Double.Reading
import Frontend.Text.Blank
import Frontend.Token.Basic

-- Reading tokens off the characters of a source, one at a time.  A string is read in pieces: its literal text,
-- and between `${` and `}` the tokens of an expression.  Which of the two is being read is kept on a stack,
-- because an expression can hold strings again.  The reader does not know which `}` ends a segment; whoever
-- does tells it (`resumeText`).  A token that was found together with an earlier one waits in a queue until it
-- is asked for.

namespace Frontend

open Text

inductive Mode where
  | text
  | code
deriving DecidableEq

-- The part of the source that is still to be read, and what was found beforehand.
structure Reader where
  rest : List Char
  offset : Nat
  -- The open strings and segments, innermost first.
  modes : List Mode
  -- Tokens to hand out before any further character is read.
  deferred : List Token
deriving DecidableEq

inductive Numeral where
  | integer (digits rest : List Char)
  | double (whole fraction rest : List Char)
  -- Digits that two points follow directly; `rest` starts after the points.
  | range (digits rest : List Char)
deriving DecidableEq

-- A point belongs to a number only if a digit follows it; two points are a range.
def Numeral.ofChars (c : Char) (cs : List Char) : Numeral :=
  let digits := c :: cs.takeWhile Char.isDigit
  match cs.dropWhile Char.isDigit with
  | '.' :: '.' :: rest => .range digits rest
  | '.' :: d :: rest =>
    if d.isDigit then
      .double digits (d :: rest.takeWhile Char.isDigit) (rest.dropWhile Char.isDigit)
    else .integer digits ('.' :: d :: rest)
  | rest => .integer digits rest

inductive TextStop where
  | endOfInput
  | quote (rest : List Char)
  | segment (rest : List Char)
deriving DecidableEq

def splitText : List Char → List Char × TextStop
  | [] => ([], .endOfInput)
  | '"' :: cs => ([], .quote cs)
  | '$' :: '{' :: cs => ([], .segment cs)
  | c :: cs =>
    match splitText cs with
    | (text, stop) => (c :: text, stop)

-- The symbol at the front of `c :: cs`, the longer one where two fit: its kind, its characters and
-- the characters after it.
def symbol? (c : Char) : List Char → Option (TokenKind × List Char × List Char)
  | [] => (TokenKind.ofSymbol? c).map fun kind => (kind, [c], [])
  | d :: ds =>
    match TokenKind.ofPair? c d with
    | some kind => some (kind, [c, d], ds)
    | none => (TokenKind.ofSymbol? c).map fun kind => (kind, [c], d :: ds)

def wordValue? : TokenKind → Option Value
  | .trueKeyword => some (.boolean true)
  | .falseKeyword => some (.boolean false)
  | _ => none

-- What digits are worth that a point stands among.  The point may be cut off with what follows it.
def doubleValue (text : List Char) : Value :=
  .double (Double.ofDigits (text.takeWhile Char.isDigit) ((text.dropWhile Char.isDigit).drop 1))

def integerToken (lo : Nat) (digits : List Char) : Except (Located LexicalError) Token :=
  match Value.integerOfDigits? (Double.digitsValue (clamped digits)) with
  | some n => .ok (.ofChars .integer (some (.integer n)) lo digits)
  | none =>
    .error ⟨Span.ofBounds lo (lo + byteLength digits), .malformedNumber (String.ofList (clamped digits))⟩

namespace Reader

-- An outcome together with the reader afterwards; a failure moves the reader as well.
abbrev Step (α : Type) := EStateM.Result (Located LexicalError) Reader α

def ofSource (source : String) : Reader := ⟨source.toList, 0, [], []⟩

def moveTo (r : Reader) (count : Nat) (rest : List Char) : Reader :=
  { r with rest := rest, offset := r.offset + count }

-- Hands out the literal text at the front; the string it belongs to has `outer` around it.  The
-- token that ends the string is found along with it.
def readText (r : Reader) (outer : List Mode) : Step (Option Token) :=
  match splitText r.rest with
  | (text, stop) =>
    let token := Token.ofChars .stringText (some (.string (String.ofList (clamped text)))) r.offset text
    let offset := r.offset + byteLength text
    match stop with
    -- The end of the input closes a string as well, with a token of no characters.
    | .endOfInput =>
      .ok (some token) ⟨[], offset, outer, [.ofChars .stringEnd none offset []]⟩
    | .quote rest =>
      .ok (some token) ⟨rest, offset + 1, outer, [.ofChars .stringEnd none offset ['"']]⟩
    -- The text stays open below the segment; `${` itself is no token.
    | .segment rest => .ok (some token) ⟨rest, offset + 2, .code :: .text :: outer, []⟩

-- Reads a range written without blanks, such as `1..10`, from behind its left bound.
--
-- Points and right bound are found along with the left bound.  If the left bound is too great, reading
-- goes on at the points; if the right one is, the left bound is lost and reading goes on behind both.
def readRange (r : Reader) (digits rest : List Char) : Step (Option Token) :=
  let count := byteLength digits
  match integerToken r.offset digits with
  | .error e => .error e (r.moveTo count ('.' :: '.' :: rest))
  | .ok left =>
    let points := Token.ofChars .dotDot none (r.offset + count) ['.', '.']
    let bound := rest.takeWhile Char.isDigit
    if bound = [] then
      .ok (some left) { r.moveTo (count + 2) rest with deferred := [points] }
    else
      let after := r.moveTo (count + 2 + byteLength bound) (rest.dropWhile Char.isDigit)
      match integerToken (r.offset + count + 2) bound with
      | .error e => .error e { after with deferred := [points] }
      | .ok right => .ok (some left) { after with deferred := [points, right] }

-- Reads the token that starts with `c`, which `cs` follow; the reader stands before `c`, and no
-- token waits.
def readToken (r : Reader) (c : Char) (cs : List Char) : Step (Option Token) :=
  match symbol? c cs with
  | some (kind, text, rest) =>
    .ok (some (.ofChars kind none r.offset text)) (r.moveTo (byteLength text) rest)
  | none =>
    if c = '"' then
      .ok (some (.ofChars .stringBegin none r.offset [c]))
        { r.moveTo (byteLength [c]) cs with modes := .text :: r.modes }
    else if isAlphabetic c then
      let word := c :: cs.takeWhile isAlphanumeric
      let kind := TokenKind.ofWord (clamped word)
      .ok (some (.ofChars kind (wordValue? kind) r.offset word))
        (r.moveTo (byteLength word) (cs.dropWhile isAlphanumeric))
    else if c.isDigit then
      match Numeral.ofChars c cs with
      | .range digits rest => r.readRange digits rest
      | .double whole fraction rest =>
        let text := whole ++ '.' :: fraction
        .ok (some (.ofChars .double (some (doubleValue (clamped text))) r.offset text))
          (r.moveTo (byteLength text) rest)
      | .integer digits rest =>
        match integerToken r.offset digits with
        | .ok token => .ok (some token) (r.moveTo (byteLength digits) rest)
        | .error e => .error e (r.moveTo (byteLength digits) rest)
    else
      .error ⟨Span.ofBounds r.offset (r.offset + c.utf8Size), .unexpectedChar c⟩
        (r.moveTo (byteLength [c]) cs)

def skipBlanks (r : Reader) : Reader :=
  r.moveTo (byteLength (r.rest.takeWhile isBlank)) (r.rest.dropWhile isBlank)

def next (r : Reader) : Step (Option Token) :=
  match r.deferred with
  | token :: tokens => .ok (some token) { r with deferred := tokens }
  | [] =>
    match r.modes with
    | .text :: outer => r.readText outer
    -- Outside of all strings, and in a segment of one, the same tokens are read.
    | _ =>
      let r := r.skipBlanks
      match r.rest with
      | [] => .ok none r
      | c :: cs => r.readToken c cs

-- Leaves a segment and goes on with the text of the string around it.
--
-- This fails if no segment is innermost.  Where literal text is innermost instead, that text is left
-- nevertheless.
def resumeText (r : Reader) : Step Unit :=
  let failure : Located LexicalError := ⟨Span.empty r.offset, .unbalancedInterpolation⟩
  match r.modes with
  | .code :: outer => .ok () { r with modes := outer }
  | .text :: outer => .error failure { r with modes := outer }
  | [] => .error failure r

end Reader

end Frontend
