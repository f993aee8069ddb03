import Frontend.Grammar.Expr
import Frontend.Surface.Node

-- The grammar of declarations, and reading whole sources.
--
--     root   ::= decl*
--     decl   ::= enum | class | var
--     enum   ::= 'enum' ID '{' [member (',' member)* [',']] '}'
--     member ::= ID ['=' ['-'] integer]
--     class  ::= 'class' ID ['<' ID (',' ID)* '>'] ['(' params ')'] ('{' decl* '}' | ';')
--     param  ::= ('var' | 'val') ID ':' type
--     var    ::= ('var' | 'val') ID [':' type] ('=' expr ';' | get | ';')
--     get    ::= 'get' ('=' expr ';' | '{' body* '}')
--     body   ::= var | 'return' expr ';'
--
-- A variable that ends without a value or a getter has to have a type.

namespace Frontend.Grammar

open Surface TokenSource

variable {σ : Type} [TokenSource σ]

def signedInteger (negative : Bool) : Rule σ Int64 := do
  let token ← expect .integer
  match token.value with
  | some (.integer n) => return if negative then -n else n
  | _ => failAt token.span (.unexpectedInExpr token.kind)

def enumValue : Rule σ Int64 := do
  let sign ← accept? .minus
  signedInteger sign.isSome

def enumMember (enumName name : String) (value : Int64) : Node :=
  .binding ⟨.enumMember, name, some (.plain enumName), some (.literal (.integer value)), none⟩

def memberValue (member : Token) (next : Option Int64) : Rule σ Int64 := do
  match ← accept? .assign with
  | some _ => enumValue
  | none =>
    match next with
    | some value => return value
    | none => failAt member.span .enumValueOverflow

def memberStep (enumName : String) (rest : Option Int64 → Rule σ (List Node))
    (next : Option Int64) : Rule σ (List Node) := do
  match ← accept? .identifier with
  | none => return []
  | some member =>
    let value ← memberValue member next
    let node := enumMember enumName member.text value
    match ← accept? .comma with
    | none => return [node]
    | some _ => return node :: (← rest (successor? value))

def enumMembers (enumName : String) (next : Option Int64) : Rule σ (List Node) :=
  recurse (memberStep enumName) next

def enum? : Rule σ (Option Node) := do
  match ← accept? .enumKeyword with
  | none => return none
  | some _ =>
    let name ← identifier
    let _ ← expect .leftBrace
    let members ← enumMembers name (some 0)
    let _ ← expect .rightBrace
    return some (.enumeration name members)

def bindingKeyword : Rule σ Modifiers := do
  let keyword ← expectAny [.varKeyword, .valKeyword]
  return if keyword.kind = .valKeyword then .readOnly else .var

def parameter : Rule σ Parameter := do
  let modifiers ← bindingKeyword
  let name ← identifier
  let _ ← expect .colon
  let ty ← typeExpr
  return ⟨modifiers, name, ty⟩

def genericNames? : Rule σ (Option (List String)) := do
  match ← accept? .less with
  | none => return none
  | some _ =>
    let first ← identifier
    let others ← afterCommas identifier
    let _ ← expect .greater
    return some (first :: others)

def constructor? : Rule σ (List Node) := do
  match ← accept? .leftParen with
  | none => return []
  | some _ =>
    let parameters ← itemsUntil .rightParen parameter
    let _ ← expect .rightParen
    return [.function ⟨false, constructorName, none, parameters, false, []⟩]

def class? (body : Rule σ (List Node)) : Rule σ (Option Node) := do
  match ← accept? .classKeyword with
  | none => return none
  | some _ =>
    let name ← identifier
    let generics ← genericNames?
    let constructor ← constructor?
    let opening ← expectAny [.leftBrace, .semicolon]
    if opening.kind = .leftBrace then
      let children ← body
      let _ ← expect .rightBrace
      return some (.classDecl name generics (constructor ++ children))
    else
      return some (.classDecl name generics constructor)

def annotation? : Rule σ (Option Expr) := do
  match ← accept? .colon with
  | none => return none
  | some _ => return some (← typeExpr)

-- A getter from behind its keyword: its body, and whether the short form was used.
def getterBody (body : Rule σ (List Node)) : Rule σ (List Node × Bool) := do
  match ← accept? .assign with
  | some _ =>
    let value ← expr
    let _ ← expect .semicolon
    return ([.ret value], true)
  | none =>
    let _ ← expect .leftBrace
    let children ← body
    let _ ← expect .rightBrace
    return (children, false)

-- A variable from behind its type: its initial value and its getter.
def bindingRest (name : Token) (ty : Option Expr) (body : Rule σ (List Node)) :
    Rule σ (Option Expr × Option FunctionDecl) := do
  match ← accept? .assign with
  | some _ =>
    let value ← expr
    let _ ← expect .semicolon
    return (some value, none)
  | none =>
    match ← accept? .getKeyword with
    | some _ =>
      let (children, internal) ← getterBody body
      return (none, some ⟨false, getterName name.text, ty, [], internal, children⟩)
    | none =>
      if ty.isSome then
        let _ ← expect .semicolon
        return (none, none)
      else
        failAt name.span (.untypedVariable name.text)

def binding? (body : Rule σ (List Node)) : Rule σ (Option Node) := do
  let kind ← currentKind
  if kind = some .varKeyword ∨ kind = some .valKeyword then
    let modifiers ← bindingKeyword
    let name ← expect .identifier
    let ty ← annotation?
    let (init, getter) ← bindingRest name ty body
    return some (.binding ⟨modifiers, name.text, ty, init, getter⟩)
  else
    return none

def return? : Rule σ (Option Node) := do
  match ← accept? .returnKeyword with
  | none => return none
  | some _ =>
    let value ← expr
    let _ ← expect .semicolon
    return some (.ret value)

inductive Place where
  | scope
  | getter
deriving DecidableEq

-- The declaration that starts here, if there is one that may stand in this place.
def declaration? (body : Place → Rule σ (List Node)) : Place → Rule σ (Option Node)
  | .scope => do
    match ← enum? with
    | some node => return some node
    | none =>
      match ← class? (body .scope) with
      | some node => return some node
      | none => binding? (body .getter)
  | .getter => do
    match ← binding? (body .getter) with
    | some node => return some node
    | none => return?

def declarationStep (body : Place → Rule σ (List Node)) (place : Place) : Rule σ (List Node) := do
  match ← declaration? body place with
  | none => return []
  | some node => return node :: (← body place)

def declarations : Place → Rule σ (List Node) := recurse declarationStep

def program : Rule σ Node := do
  let children ← declarations .scope
  expectEnd [.enumKeyword, .classKeyword, .varKeyword, .valKeyword]
  return .root children

def wholeExpr : Rule σ Expr := do
  let e ← expr
  expectEnd []
  return e

-- What `rule` gives for the tokens of `s`.  The input ends at byte `length`.
def runOn {σ α : Type} (rule : Rule σ α) (s : σ) (length : Nat) : Except ReadError α :=
  match rule (.empty length) s with
  | .ok a _ => .ok a
  | .error e _ => .error e

end Frontend.Grammar

namespace Frontend

-- Reads a program off the rest of a stream whose input ends at byte `length`.
def readProgramFrom (s : TokenStream) (length : Nat) : Except ReadError Surface.Node :=
  Grammar.runOn Grammar.program s length

def readProgram (source : String) : Except ReadError Surface.Node :=
  readProgramFrom (TokenStream.ofSource source) source.utf8ByteSize

def readExpr (source : String) : Except ReadError Surface.Expr :=
  Grammar.runOn Grammar.wholeExpr (TokenStream.ofSource source) source.utf8ByteSize

end Frontend
