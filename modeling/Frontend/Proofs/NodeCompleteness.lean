import Frontend.Proofs.ExprCompleteness
import Frontend.Proofs.NodeGrammar

-- Declarations that are derived are read.  The first token tells which declaration there is, and the token
-- behind an optional part tells that it is not there.

namespace Frontend.Grammar

open Surface TokenSource Feed

section Tokens

variable {eof : Span} {t : Token} {ts us rest : List Token} {kind : TokenKind}

theorem expectAny_tokens {kinds : List TokenKind} (found : t.kind ∈ kinds) :
    expectAny kinds eof (feedOf (t :: ts)) = .ok t (feedOf ts) := by
  have first : current eof (feedOf (t :: ts)) = .ok (some t) (feedOf (t :: ts)) := rfl
  simp only [expectAny, bind_ok first, found, if_true, advance_tokens]

theorem SpellsNames.read {names : List String} (spells : SpellsNames names ts)
    (other : Next (· ≠ .comma) rest) : ∃ id others us, id.kind = .identifier ∧ ts = id :: us ∧
      names = id.text :: others ∧
      afterCommas identifier eof (feedOf (us ++ rest)) = .ok others (feedOf rest) := by
  induction spells with
  | one named =>
    refine ⟨_, [], [], named, rfl, rfl, ?_⟩
    rw [List.nil_append, afterNames_eq, commaStep, bind_ok (accept_next other)]
    rfl
  | @more id comma names ts named separates _ ih =>
    obtain ⟨id', others, us, named', rfl, rfl, read⟩ := ih
    refine ⟨id, _, _, named, rfl, rfl, ?_⟩
    rw [List.cons_append, afterNames_eq, commaStep, bind_ok (accept_tokens separates)]
    dsimp only
    rw [List.cons_append, bind_ok (identifier_tokens named'), bind_ok read]
    rfl

theorem SpellsGenerics.read {generics : Option (List String)} (spells : SpellsGenerics generics ts)
    (other : Next (· ≠ .less) rest) :
    genericNames? eof (feedOf (ts ++ rest)) = .ok generics (feedOf rest) := by
  cases spells with
  | none =>
    rw [List.nil_append, genericNames?, bind_ok (accept_next other)]
    rfl
  | @names opening closing names ts opens spells closes =>
    have behind : Next (· ≠ .comma) (closing :: rest) := .cons (by rw [closes]; decide)
    obtain ⟨id, others, us, named, rfl, rfl, read⟩ := spells.read behind
    simp only [List.cons_append, List.append_assoc, List.nil_append]
    rw [genericNames?, bind_ok (accept_tokens opens)]
    dsimp only
    rw [bind_ok (identifier_tokens named), bind_ok read, bind_ok (expect_tokens closes)]
    rfl

theorem Spells.typeExpr {ty : Expr} (spells : Spells (.type ty) ts) (other : Next (· ≠ .less) rest) :
    typeExpr eof (feedOf (ts ++ rest)) = .ok ty (feedOf rest) := by
  rw [typeExpr_unfold, typeStep]
  cases spells with
  | name named =>
    have noList : ¬ Encloses rest := by
      rintro ⟨args, us, others, list, rfl⟩
      obtain ⟨t, more, rfl, opens⟩ := opens_closed list
      exact other t rfl opens
    rw [List.cons_append, bind_ok (identifier_tokens named), List.nil_append,
      bind_ok (generics_none noList)]
    rfl
  | applied named list =>
    rw [List.cons_append, bind_ok (identifier_tokens named), bind_ok (generics_tokens list rest)]
    rfl

theorem Introduces.read {modifiers : Modifiers} (introduces : Introduces t.kind modifiers) :
    bindingKeyword eof (feedOf (t :: ts)) = .ok modifiers (feedOf ts) := by
  generalize same : t.kind = kind at introduces
  have found : t.kind ∈ [TokenKind.varKeyword, .valKeyword] := by
    rw [same]
    cases introduces <;> decide
  rw [bindingKeyword, bind_ok (expectAny_tokens found), same]
  cases introduces <;> rfl

theorem SpellsParameter.read {p : Parameter} (spells : SpellsParameter p ts)
    (other : Next (· ≠ .less) rest) : parameter eof (feedOf (ts ++ rest)) = .ok p (feedOf rest) := by
  cases spells with
  | typed introduces named colon type =>
    simp only [List.cons_append]
    rw [parameter, bind_ok introduces.read, bind_ok (identifier_tokens named),
      bind_ok (expect_tokens colon), bind_ok (type.typeExpr other)]
    rfl

theorem SpellsParameter.start {p : Parameter} (spells : SpellsParameter p ts) :
    Next (· ≠ .rightParen) (ts ++ rest) := by
  cases spells with
  | @typed keyword _ _ _ _ _ introduces _ _ _ =>
    refine .cons ?_
    generalize keyword.kind = kind at introduces
    cases introduces <;> decide

theorem SpellsParameters.read {ps : List Parameter} (spells : SpellsParameters ps ts)
    (closes : t.kind = .rightParen) :
    itemsUntil .rightParen parameter eof (feedOf (ts ++ t :: rest)) = .ok ps (feedOf (t :: rest)) := by
  induction spells with
  | none =>
    rw [List.nil_append, parametersUntil_eq, itemStep, bind_ok (isNext_tokens closes)]
    rfl
  | last first =>
    have behind : Next (· ≠ .less) (t :: rest) := .cons (by rw [closes]; decide)
    have noComma : Next (· ≠ .comma) (t :: rest) := .cons (by rw [closes]; decide)
    rw [parametersUntil_eq, itemStep, bind_ok (isNext_next first.start)]
    simp only [Bool.false_eq_true, if_false]
    rw [bind_ok (first.read behind), bind_ok (accept_next noComma)]
    rfl
  | @more p ps comma ts us first separates _ ih =>
    have behind : Next (· ≠ .less) (comma :: (us ++ t :: rest)) := .cons (by rw [separates]; decide)
    simp only [List.append_assoc, List.cons_append]
    rw [parametersUntil_eq, itemStep, bind_ok (isNext_next first.start)]
    simp only [Bool.false_eq_true, if_false]
    rw [bind_ok (first.read behind), bind_ok (accept_tokens separates)]
    dsimp only
    rw [bind_ok ih]
    rfl

theorem SpellsConstructor.read {constructor : List Node} (spells : SpellsConstructor constructor ts)
    (other : Next (· ≠ .leftParen) rest) :
    constructor? eof (feedOf (ts ++ rest)) = .ok constructor (feedOf rest) := by
  cases spells with
  | none =>
    rw [List.nil_append, constructor?, bind_ok (accept_next other)]
    rfl
  | parameters opens list closes =>
    simp only [List.cons_append, List.append_assoc, List.nil_append]
    rw [constructor?, bind_ok (accept_tokens opens)]
    dsimp only
    rw [bind_ok (list.read closes), bind_ok (expect_tokens closes)]
    rfl

theorem SpellsAnnotation.read {ty : Option Expr} (spells : SpellsAnnotation ty ts)
    (noColon : Next (· ≠ .colon) rest) (noLess : Next (· ≠ .less) rest) :
    annotation? eof (feedOf (ts ++ rest)) = .ok ty (feedOf rest) := by
  cases spells with
  | none =>
    rw [List.nil_append, annotation?, bind_ok (accept_next noColon)]
    rfl
  | type colon type =>
    rw [List.cons_append, annotation?, bind_ok (accept_tokens colon)]
    dsimp only
    rw [bind_ok (type.typeExpr noLess)]
    rfl

theorem signedInteger_tokens {n : Int64} (number : t.kind = .integer)
    (valued : t.value = some (.integer n)) (negative : Bool) :
    signedInteger negative eof (feedOf (t :: ts)) = .ok (if negative then -n else n) (feedOf ts) := by
  rw [signedInteger, bind_ok (expect_tokens number), valued]
  rfl

theorem SpellsValue.read {given next : Option Int64} {value : Int64} {member : Token}
    (spells : SpellsValue given ts) (decided : given.or next = some value)
    (other : Next (· ≠ .assign) rest) :
    memberValue member next eof (feedOf (ts ++ rest)) = .ok value (feedOf rest) := by
  cases spells with
  | none =>
    rw [Option.none_or] at decided
    unfold memberValue
    rw [List.nil_append, bind_ok (accept_next other), decided]
    rfl
  | @plain _ number _ assign isNumber valued =>
    cases decided
    have noMinus : Next (· ≠ .minus) (number :: rest) := .cons (by rw [isNumber]; decide)
    simp only [List.cons_append, List.nil_append]
    unfold memberValue
    rw [bind_ok (accept_tokens assign)]
    dsimp only
    rw [enumValue, bind_ok (accept_next noMinus)]
    exact signedInteger_tokens isNumber valued false
  | negative assign minus isNumber valued =>
    cases decided
    simp only [List.cons_append, List.nil_append]
    unfold memberValue
    rw [bind_ok (accept_tokens assign)]
    dsimp only
    rw [enumValue, bind_ok (accept_tokens minus)]
    exact signedInteger_tokens isNumber valued true

theorem SpellsMembers.read {enumName : String} {next : Option Int64} {members : List Node}
    (spells : SpellsMembers enumName next members ts) (closes : t.kind = .rightBrace) :
    enumMembers enumName next eof (feedOf (ts ++ t :: rest)) = .ok members (feedOf (t :: rest)) := by
  induction spells with
  | none =>
    have noName : Next (· ≠ .identifier) (t :: rest) := .cons (by rw [closes]; decide)
    rw [List.nil_append, enumMembers_eq, memberStep, bind_ok (accept_next noName)]
    rfl
  | last named spells decided =>
    have noAssign : Next (· ≠ .assign) (t :: rest) := .cons (by rw [closes]; decide)
    have noComma : Next (· ≠ .comma) (t :: rest) := .cons (by rw [closes]; decide)
    rw [List.cons_append, enumMembers_eq, memberStep, bind_ok (accept_tokens named)]
    dsimp only
    rw [bind_ok (spells.read decided noAssign), bind_ok (accept_next noComma)]
    rfl
  | @more next given id comma value nodes ts us named spells decided separates _ ih =>
    have noAssign : Next (· ≠ .assign) (comma :: (us ++ t :: rest)) :=
      .cons (by rw [separates]; decide)
    simp only [List.cons_append, List.append_assoc]
    rw [enumMembers_eq, memberStep, bind_ok (accept_tokens named)]
    dsimp only
    rw [bind_ok (spells.read decided noAssign), bind_ok (accept_tokens separates)]
    dsimp only
    rw [bind_ok ih]
    rfl

def Place.starters : Place → List TokenKind
  | .scope => [.enumKeyword, .classKeyword, .varKeyword, .valKeyword]
  | .getter => [.varKeyword, .valKeyword, .returnKeyword]

variable {body : Rule Feed (List Node)} {bodies : Place → Rule Feed (List Node)}

theorem enum_none (other : Next (· ≠ .enumKeyword) ts) : enum? eof (feedOf ts) = .ok none (feedOf ts) := by
  rw [enum?, bind_ok (accept_next other)]
  rfl

theorem class_none (other : Next (· ≠ .classKeyword) ts) :
    class? body eof (feedOf ts) = .ok none (feedOf ts) := by
  rw [class?, bind_ok (accept_next other)]
  rfl

theorem return_none (other : Next (· ≠ .returnKeyword) ts) :
    return? eof (feedOf ts) = .ok none (feedOf ts) := by
  rw [return?, bind_ok (accept_next other)]
  rfl

theorem binding_none (other : Next (· ∉ [.varKeyword, .valKeyword]) ts) :
    binding? body eof (feedOf ts) = .ok none (feedOf ts) := by
  have neither : ¬ (ts.head?.map Token.kind = some .varKeyword ∨
      ts.head?.map Token.kind = some .valKeyword) := by
    cases ts with
    | nil => simp
    | cons t ts => simpa using other t rfl
  rw [binding?, bind_ok (currentKind_tokens ts), if_neg neither]
  rfl

theorem declaration_none {place : Place} (other : Next (· ∉ place.starters) ts) :
    declaration? bodies place eof (feedOf ts) = .ok none (feedOf ts) := by
  have without {kinds : List TokenKind} (within : kinds ⊆ place.starters) : Next (· ∉ kinds) ts :=
    fun t next found => other t next (within found)
  have alone {kind : TokenKind} (within : kind ∈ place.starters) : Next (· ≠ kind) ts :=
    fun t next same => other t next (same ▸ within)
  cases place with
  | scope =>
    rw [declaration?, bind_ok (enum_none (alone (by decide)))]
    dsimp only
    rw [bind_ok (class_none (alone (by decide)))]
    exact binding_none (without (by decide))
  | getter =>
    rw [declaration?, bind_ok (binding_none (without (by decide)))]
    exact return_none (alone (by decide))

theorem Declares.ending_start {name : String} {ty init : Option Expr} {getter : Option FunctionDecl}
    (ending : Declares .required (.ending name ty init getter) ts rest) :
    ∃ t others, ts = t :: others ∧ t.kind ∈ [TokenKind.assign, .getKeyword, .semicolon] := by
  cases ending with
  | value kind _ _ | computed kind _ _ _ | getter kind _ _ _ | typed kind =>
    exact ⟨_, _, rfl, by rw [kind]; decide⟩
  | unended optional => cases optional

-- The rule for the phrase reads it off the tokens.
def Declared (eof : Span) : NodePhrase → List Token → List Token → Prop
  | .nodes place nodes, ts, rest => Next (· ∉ place.starters) rest →
    declarations place eof (feedOf ts) = .ok nodes (feedOf rest)
  | .node place node, ts, rest =>
    declaration? declarations place eof (feedOf ts) = .ok (some node) (feedOf rest)
  | .ending name ty init getter, ts, rest => ∀ id : Token, id.text = name →
    bindingRest id ty (declarations .getter) eof (feedOf ts) = .ok (init, getter) (feedOf rest)

variable {place : Place} {node : Node} {nodes : List Node} {keyword id opening closing : Token}
  {us vs mid : List Token} {e : Expr} {ty init : Option Expr} {getter : Option FunctionDecl}
  {name : String}

theorem Declared.nil : Declared eof (.nodes place []) rest rest := by
  intro other
  rw [declarations_eq, declarationStep, bind_ok (declaration_none other)]
  rfl

theorem Declared.cons (first : Declared eof (.node place node) ts mid)
    (others : Declared eof (.nodes place nodes) mid rest) :
    Declared eof (.nodes place (node :: nodes)) ts rest := by
  intro other
  rw [declarations_eq, declarationStep, bind_ok first]
  dsimp only
  rw [bind_ok (others other)]
  rfl

theorem Declared.enumeration {members : List Node} (enum : keyword.kind = .enumKeyword)
    (named : id.kind = .identifier) (opens : opening.kind = .leftBrace)
    (spells : SpellsMembers id.text (some 0) members ts) (closes : closing.kind = .rightBrace) :
    Declared eof (.node .scope (.enumeration id.text members))
      (keyword :: id :: opening :: ts ++ closing :: rest) rest := by
  have read : enum? eof (feedOf (keyword :: id :: opening :: ts ++ closing :: rest)) =
      .ok (some (.enumeration id.text members)) (feedOf rest) := by
    simp only [List.cons_append]
    rw [enum?, bind_ok (accept_tokens enum)]
    dsimp only
    rw [bind_ok (identifier_tokens named), bind_ok (expect_tokens opens), bind_ok (spells.read closes),
      bind_ok (expect_tokens closes)]
    rfl
  exact bind_ok read

theorem SpellsConstructor.start {constructor : List Node} (spells : SpellsConstructor constructor ts)
    (other : t.kind ≠ .less) : Next (· ≠ .less) (ts ++ t :: rest) := by
  cases spells with
  | none => exact .cons other
  | parameters opens _ _ => exact .cons (by rw [opens]; decide)

theorem Declared.class (introduces : keyword.kind = .classKeyword)
    (read : class? (declarations .scope) eof (feedOf (keyword :: ts)) = .ok (some node) (feedOf rest)) :
    Declared eof (.node .scope node) (keyword :: ts) rest := by
  have noEnum : Next (· ≠ .enumKeyword) (keyword :: ts) := .cons (by rw [introduces]; decide)
  rw [Declared, declaration?, bind_ok (enum_none noEnum)]
  exact bind_ok read

section Classes

variable {generics : Option (List String)} {constructor children : List Node}
  (introduces : keyword.kind = .classKeyword) (named : id.kind = .identifier)
  (generic : SpellsGenerics generics ts) (constructs : SpellsConstructor constructor us)

include introduces named generic constructs

theorem Declared.bodiless {semicolon : Token} (ends : semicolon.kind = .semicolon) :
    Declared eof (.node .scope (.classDecl id.text generics constructor))
      (keyword :: id :: ts ++ us ++ semicolon :: rest) rest := by
  have noLess : Next (· ≠ .less) (us ++ semicolon :: rest) :=
    constructs.start (by rw [ends]; decide)
  have noParen : Next (· ≠ .leftParen) (semicolon :: rest) := .cons (by rw [ends]; decide)
  have found : semicolon.kind ∈ [TokenKind.leftBrace, .semicolon] := by rw [ends]; decide
  have bodiless : ¬ semicolon.kind = .leftBrace := by rw [ends]; decide
  simp only [List.cons_append, List.append_assoc]
  apply Declared.class introduces
  rw [class?, bind_ok (accept_tokens introduces)]
  dsimp only
  rw [bind_ok (identifier_tokens named), bind_ok (generic.read noLess),
    bind_ok (constructs.read noParen), bind_ok (expectAny_tokens found), if_neg bodiless]
  rfl

theorem Declared.classDecl (opens : opening.kind = .leftBrace)
    (body : Declared eof (.nodes .scope children) vs (closing :: rest))
    (closes : closing.kind = .rightBrace) :
    Declared eof (.node .scope (.classDecl id.text generics (constructor ++ children)))
      (keyword :: id :: ts ++ us ++ opening :: vs) rest := by
  have noLess : Next (· ≠ .less) (us ++ opening :: vs) := constructs.start (by rw [opens]; decide)
  have noParen : Next (· ≠ .leftParen) (opening :: vs) := .cons (by rw [opens]; decide)
  have found : opening.kind ∈ [TokenKind.leftBrace, .semicolon] := by rw [opens]; decide
  have ended : Next (· ∉ Place.scope.starters) (closing :: rest) := .cons (by rw [closes]; decide)
  simp only [List.cons_append, List.append_assoc]
  apply Declared.class introduces
  rw [class?, bind_ok (accept_tokens introduces)]
  dsimp only
  rw [bind_ok (identifier_tokens named), bind_ok (generic.read noLess),
    bind_ok (constructs.read noParen), bind_ok (expectAny_tokens found), if_pos opens,
    bind_ok (body ended), bind_ok (expect_tokens closes)]
  rfl

end Classes

theorem binding_read {modifiers : Modifiers} {body : Rule Feed (List Node)}
    (introduces : Introduces keyword.kind modifiers) (named : id.kind = .identifier)
    (annotates : SpellsAnnotation ty ts) (noColon : Next (· ≠ .colon) us)
    (noLess : Next (· ≠ .less) us)
    (ending : bindingRest id ty body eof (feedOf us) = .ok (init, getter) (feedOf rest)) :
    binding? body eof (feedOf (keyword :: id :: ts ++ us)) =
      .ok (some (.binding ⟨modifiers, id.text, ty, init, getter⟩)) (feedOf rest) := by
  have starts : (keyword :: id :: ts ++ us).head?.map Token.kind = some .varKeyword ∨
      (keyword :: id :: ts ++ us).head?.map Token.kind = some .valKeyword := by
    simp only [List.cons_append, List.head?_cons, Option.map_some, Option.some.injEq]
    generalize keyword.kind = kind at introduces
    cases introduces
    · exact .inl rfl
    · exact .inr rfl
  rw [binding?, bind_ok (currentKind_tokens _), if_pos starts]
  simp only [List.cons_append]
  rw [bind_ok introduces.read, bind_ok (expect_tokens named), bind_ok (annotates.read noColon noLess),
    bind_ok ending]
  rfl

theorem Declared.binding {modifiers : Modifiers} (introduces : Introduces keyword.kind modifiers)
    (named : id.kind = .identifier) (annotates : SpellsAnnotation ty ts)
    (ending : Declares .required (.ending id.text ty init getter) us rest)
    (read : Declared eof (.ending id.text ty init getter) us rest) :
    Declared eof (.node place (.binding ⟨modifiers, id.text, ty, init, getter⟩))
      (keyword :: id :: ts ++ us) rest := by
  have other {kind : TokenKind} (outside : kind ∉ [.assign, .getKeyword, .semicolon]) :
      Next (· ≠ kind) us := by
    obtain ⟨t, others, rfl, within⟩ := ending.ending_start
    exact .cons fun same => outside (same ▸ within)
  have binding := binding_read introduces named annotates (other (by decide)) (other (by decide))
    (read id rfl)
  have noDeclaration {kind : TokenKind} (neither : kind ∉ [.varKeyword, .valKeyword]) :
      Next (· ≠ kind) (keyword :: id :: ts ++ us) := by
    refine .cons fun same => neither ?_
    rw [same] at introduces
    cases introduces <;> decide
  cases place with
  | scope =>
    rw [Declared, declaration?, bind_ok (enum_none (noDeclaration (by decide)))]
    dsimp only
    rw [bind_ok (class_none (noDeclaration (by decide)))]
    exact binding
  | getter => exact bind_ok binding

theorem Declared.ret {semicolon : Token} (returns : keyword.kind = .returnKeyword)
    (derives : Derives (.infixed 0 e) ts (semicolon :: rest)) (ends : semicolon.kind = .semicolon) :
    Declared eof (.node .getter (.ret e)) (keyword :: ts) rest := by
  have noBinding : Next (· ∉ [TokenKind.varKeyword, .valKeyword]) (keyword :: ts) :=
    .cons (by rw [returns]; decide)
  have read : return? eof (feedOf (keyword :: ts)) = .ok (some (.ret e)) (feedOf rest) := by
    rw [return?, bind_ok (accept_tokens returns)]
    dsimp only
    rw [bind_ok (derives.complete.closed ends (by decide)), bind_ok (expect_tokens ends)]
    rfl
  rw [Declared, declaration?, bind_ok (binding_none noBinding)]
  exact read

theorem Declared.value {assign semicolon : Token} (assigns : assign.kind = .assign)
    (derives : Derives (.infixed 0 e) ts (semicolon :: rest)) (ends : semicolon.kind = .semicolon) :
    Declared eof (.ending name ty (some e) none) (assign :: ts) rest := by
  intro id _
  rw [bindingRest, bind_ok (accept_tokens assigns)]
  dsimp only
  rw [bind_ok (derives.complete.closed ends (by decide)), bind_ok (expect_tokens ends)]
  rfl

-- A getter from its keyword on.
theorem Declared.got {internal : Bool} (gets : keyword.kind = .getKeyword)
    (read : getterBody (declarations .getter) eof (feedOf ts) = .ok (nodes, internal) (feedOf rest)) :
    Declared eof (.ending name ty none (some ⟨false, getterName name, ty, [], internal, nodes⟩))
      (keyword :: ts) rest := by
  rintro id rfl
  have noValue : Next (· ≠ .assign) (keyword :: ts) := .cons (by rw [gets]; decide)
  rw [bindingRest, bind_ok (accept_next noValue)]
  dsimp only
  rw [bind_ok (accept_tokens gets)]
  dsimp only
  rw [bind_ok read]
  rfl

theorem Declared.computed {assign semicolon : Token} (gets : keyword.kind = .getKeyword)
    (assigns : assign.kind = .assign) (derives : Derives (.infixed 0 e) ts (semicolon :: rest))
    (ends : semicolon.kind = .semicolon) :
    Declared eof (.ending name ty none (some ⟨false, getterName name, ty, [], true, [.ret e]⟩))
      (keyword :: assign :: ts) rest := by
  apply Declared.got gets
  rw [getterBody, bind_ok (accept_tokens assigns)]
  dsimp only
  rw [bind_ok (derives.complete.closed ends (by decide)), bind_ok (expect_tokens ends)]
  rfl

theorem Declared.block (gets : keyword.kind = .getKeyword) (opens : opening.kind = .leftBrace)
    (body : Declared eof (.nodes .getter nodes) ts (closing :: rest)) (closes : closing.kind = .rightBrace) :
    Declared eof (.ending name ty none (some ⟨false, getterName name, ty, [], false, nodes⟩))
      (keyword :: opening :: ts) rest := by
  have noValue : Next (· ≠ .assign) (opening :: ts) := .cons (by rw [opens]; decide)
  have ended : Next (· ∉ Place.getter.starters) (closing :: rest) := .cons (by rw [closes]; decide)
  apply Declared.got gets
  rw [getterBody, bind_ok (accept_next noValue)]
  dsimp only
  rw [bind_ok (expect_tokens opens), bind_ok (body ended), bind_ok (expect_tokens closes)]
  rfl

theorem Declared.typed {ty : Expr} {semicolon : Token} (ends : semicolon.kind = .semicolon) :
    Declared eof (.ending name (some ty) none none) (semicolon :: rest) rest := by
  intro id _
  have noValue : Next (· ≠ .assign) (semicolon :: rest) := .cons (by rw [ends]; decide)
  have noGetter : Next (· ≠ .getKeyword) (semicolon :: rest) := .cons (by rw [ends]; decide)
  rw [bindingRest, bind_ok (accept_next noValue)]
  dsimp only
  rw [bind_ok (accept_next noGetter)]
  dsimp only
  rw [if_pos (Option.isSome_some), bind_ok (expect_tokens ends)]
  rfl

end Tokens

theorem Declares.declared {eof : Span} {phrase : NodePhrase} {ts rest : List Token}
    (declares : Declares .required phrase ts rest) : Declared eof phrase ts rest := by
  induction declares with
  | none => exact .nil
  | more _ _ first others => exact first.cons others
  | enumeration enum named opens spells closes => exact .enumeration enum named opens spells closes
  | bodiless introduces named generic constructs ends =>
    exact .bodiless introduces named generic constructs ends
  | classDecl introduces named generic constructs opens _ closes body =>
    exact .classDecl introduces named generic constructs opens body closes
  | binding introduces named annotates ending read =>
    exact .binding introduces named annotates ending read
  | ret returns derives ends => exact .ret returns derives ends
  | value assigns derives ends => exact .value assigns derives ends
  | computed gets assigns derives ends => exact .computed gets assigns derives ends
  | getter gets opens _ closes body => exact .block gets opens body closes
  | typed ends => exact .typed ends
  | unended optional => cases optional

theorem Declares.program {eof : Span} {children : List Node} {ts : List Token}
    (declares : Declares .required (.nodes .scope children) ts []) :
    program eof (feedOf ts) = .ok (.root children) (feedOf []) := by
  rw [Grammar.program, bind_ok (declares.declared .nil)]
  rfl

end Frontend.Grammar
