import Frontend.Grammar.Error
import Frontend.Token.Progress

-- Reading a tree off a source of tokens.  A rule of the grammar takes tokens and gives a tree, or fails; it
-- leaves the source where it stopped in both cases.  The source does not know where its input ends, so that
-- every rule is told.

namespace Frontend.Grammar

open TokenSource

abbrev Rule (σ α : Type) := ReaderT Span (EStateM ReadError σ) α

variable {σ : Type}

def ofStep {α : Type} (step : σ → TokenStep σ α) : Rule σ α := fun _ s =>
  match step s with
  | .ok a s => .ok a s
  | .error e s => .error (.lexical e) s

def failAt {α : Type} (span : Span) (error : SyntaxError) : Rule σ α :=
  throw (.grammatical ⟨span, error⟩)

-- A token is needed where the input is over.
def endOfInput {α : Type} : Rule σ α := do
  failAt (← read) .unexpectedEnd

variable [TokenSource σ]

def current : Rule σ (Option Token) := ofStep look

def currentKind : Rule σ (Option TokenKind) := do
  return (← current).map Token.kind

def advance : Rule σ Token := do
  match ← ofStep take with
  | some token => return token
  | none => endOfInput

def isNext (kind : TokenKind) : Rule σ Bool := do
  return (← currentKind) == some kind

def accept? (kind : TokenKind) : Rule σ (Option Token) := do
  if ← isNext kind then
    return some (← advance)
  else
    return none

def expect (kind : TokenKind) : Rule σ Token := do
  match ← current with
  | some token =>
    if token.kind = kind then advance
    else failAt token.span (.unexpected kind token.kind)
  | none => endOfInput

def expectAny (kinds : List TokenKind) : Rule σ Token := do
  match ← current with
  | some token =>
    if token.kind ∈ kinds then advance
    else failAt token.span (.unexpectedAny kinds token.kind)
  | none => endOfInput

-- Succeeds at the end of the input only.  `kinds` could have stood here instead.
def expectEnd (kinds : List TokenKind) : Rule σ Unit := do
  match ← current with
  | none => return ()
  | some token => failAt token.span (.unexpectedAny kinds token.kind)

def identifier : Rule σ String := do
  return (← expect .identifier).text

-- A rule that refers to itself.
--
-- A recursive use is honoured only after tokens were taken, which every rule of the grammar does first.
-- Therefore the recursion ends, and the failure of a use without progress is never seen.
def recurse {ι α : Type} (step : (ι → Rule σ α) → ι → Rule σ α) (i : ι) : Rule σ α := fun eof s =>
  step (fun j eof' s' =>
    if weight s' < weight s then recurse step j eof' s' else endOfInput eof' s') i eof s
termination_by _ s => weight s

def commaStep {α : Type} (item : Rule σ α) (rest : Unit → Rule σ (List α)) (_ : Unit) :
    Rule σ (List α) := do
  match ← accept? .comma with
  | none => return []
  | some _ =>
    let x ← item
    return x :: (← rest ())

-- What follows as long as a separating comma does: `item (, item)*` from behind the first item.
def afterCommas {α : Type} (item : Rule σ α) : Rule σ (List α) := recurse (commaStep item) ()

def itemStep {α : Type} (close : TokenKind) (item : Rule σ α) (rest : Unit → Rule σ (List α))
    (_ : Unit) : Rule σ (List α) := do
  if ← isNext close then
    return []
  else
    let x ← item
    match ← accept? .comma with
    | none => return [x]
    | some _ => return x :: (← rest ())

-- Items up to the delimiter `close`, which is not taken.  Commas separate them, and one more may
-- follow the last.
def itemsUntil {α : Type} (close : TokenKind) (item : Rule σ α) : Rule σ (List α) :=
  recurse (itemStep close item) ()

-- Tries a rule.  If it fails on account of the grammar, the tokens it took are put back and nothing is
-- given; a lexical error is a failure all the same.  The end of the input is given up for as well, and
-- where it is reported is forgotten with it.
--
-- Only the outermost attempt remembers where it started.  Inside it, an attempt that fails makes the
-- outer one fail.
def attempt {α : Type} (rule : Rule σ α) : Rule σ (Option α) := fun eof s =>
  match begin? s with
  -- The tokens belong to an outer attempt, which alone can put them back.
  | none => (some <$> rule) eof s
  | some s =>
    match rule eof s with
    | .ok a s => .ok (some a) (commit s)
    | .error e s => if e.isLexical then .error e (reset s) else .ok none (reset s)

end Frontend.Grammar
