import Frontend.Grammar.Node
import Frontend.Proofs.ExprGrammar

-- The grammar of declarations, apart from how they are read.  A phrase without expressions is told by its
-- tokens alone.  A declaration is told by what stands behind it as well, as an expression is.

namespace Frontend.Grammar

open Surface

-- Phrases without expressions: the tokens that spell them, from the first to the last.

-- ID (',' ID)*
inductive SpellsNames : List String → List Token → Prop where
  | one {id : Token} : id.kind = .identifier → SpellsNames [id.text] [id]
  | more {id comma : Token} {names : List String} {ts : List Token} : id.kind = .identifier →
      comma.kind = .comma → SpellsNames names ts → SpellsNames (id.text :: names) (id :: comma :: ts)

-- ['<' ID (',' ID)* '>']
inductive SpellsGenerics : Option (List String) → List Token → Prop where
  | none : SpellsGenerics none []
  | names {opening closing : Token} {names : List String} {ts : List Token} : opening.kind = .less →
      SpellsNames names ts → closing.kind = .greater →
      SpellsGenerics (some names) (opening :: ts ++ [closing])

inductive Introduces : TokenKind → Modifiers → Prop where
  | var : Introduces .varKeyword ⟨false, false⟩
  | val : Introduces .valKeyword ⟨true, false⟩

-- ('var' | 'val') ID ':' type
inductive SpellsParameter : Parameter → List Token → Prop where
  | typed {keyword id colon : Token} {modifiers : Modifiers} {ty : Expr} {ts : List Token} :
      Introduces keyword.kind modifiers → id.kind = .identifier → colon.kind = .colon →
      Spells (.type ty) ts → SpellsParameter ⟨modifiers, id.text, ty⟩ (keyword :: id :: colon :: ts)

-- Any number of parameters with commas between them, and maybe one behind the last.
inductive SpellsParameters : List Parameter → List Token → Prop where
  | none : SpellsParameters [] []
  | last {p : Parameter} {ts : List Token} : SpellsParameter p ts → SpellsParameters [p] ts
  | more {p : Parameter} {ps : List Parameter} {comma : Token} {ts us : List Token} :
      SpellsParameter p ts → comma.kind = .comma → SpellsParameters ps us →
      SpellsParameters (p :: ps) (ts ++ comma :: us)

-- The function that stands for the parenthesised parameter list of a class.
def constructorDecl (parameters : List Parameter) : FunctionDecl := ⟨false, ".ctor", none, parameters, false, []⟩

-- The getter of a variable that is written with the type `ty`.
def getterDecl (name : String) (ty : Option Expr) (internal : Bool) (body : List Node) : FunctionDecl :=
  ⟨false, "get_" ++ name, ty, [], internal, body⟩

-- A member of an enum is a read-only static variable of the enum, and its number the initial value.
def memberDecl (enumName name : String) (value : Int64) : BindingDecl :=
  ⟨⟨true, true⟩, name, some (.ident enumName none), some (.literal (.integer value)), none⟩

-- ['(' parameters ')'], which stands for a constructor.
inductive SpellsConstructor : List Node → List Token → Prop where
  | none : SpellsConstructor [] []
  | parameters {opening closing : Token} {ps : List Parameter} {ts : List Token} :
      opening.kind = .leftParen → SpellsParameters ps ts → closing.kind = .rightParen →
      SpellsConstructor [.function (constructorDecl ps)] (opening :: ts ++ [closing])

-- [':' type]
inductive SpellsAnnotation : Option Expr → List Token → Prop where
  | none : SpellsAnnotation none []
  | type {colon : Token} {ty : Expr} {ts : List Token} : colon.kind = .colon → Spells (.type ty) ts →
      SpellsAnnotation (some ty) (colon :: ts)

-- ['=' ['-'] integer]
inductive SpellsValue : Option Int64 → List Token → Prop where
  | none : SpellsValue none []
  | plain {assign number : Token} {n : Int64} : assign.kind = .assign → number.kind = .integer →
      number.value = some (.integer n) → SpellsValue (some n) [assign, number]
  | negative {assign minus number : Token} {n : Int64} : assign.kind = .assign →
      minus.kind = .minus → number.kind = .integer → number.value = some (.integer n) →
      SpellsValue (some (-n)) [assign, minus, number]

-- Any number of members with commas between them, and maybe one behind the last.
--
-- A member that no value is written for has the value `next`: the one after that of the member before it.
-- Behind the greatest value there is none.
inductive SpellsMembers (enumName : String) : Option Int64 → List Node → List Token → Prop where
  | none {next : Option Int64} : SpellsMembers enumName next [] []
  | last {next given : Option Int64} {id : Token} {value : Int64} {ts : List Token} :
      id.kind = .identifier → SpellsValue given ts → given.or next = some value →
      SpellsMembers enumName next [.binding (memberDecl enumName id.text value)] (id :: ts)
  | more {next given : Option Int64} {id comma : Token} {value : Int64} {nodes : List Node}
      {ts us : List Token} : id.kind = .identifier → SpellsValue given ts →
      given.or next = some value → comma.kind = .comma →
      SpellsMembers enumName (successor? value) nodes us →
      SpellsMembers enumName next (.binding (memberDecl enumName id.text value) :: nodes) (id :: ts ++ comma :: us)

inductive NodePhrase where
  -- Any number of declarations that may stand in the place.
  | nodes (place : Place) (nodes : List Node)
  | node (place : Place) (node : Node)
  -- The rest of the variable `name` from behind its type: its initial value and its getter.
  | ending (name : String) (ty init : Option Expr) (getter : Option FunctionDecl)

-- Whether a variable with a type has to end in something: a value, a getter or a semicolon.
inductive Endings where
  | required
  | optional

-- The first tokens of a list are the phrase, and `rest` are those behind it.
inductive Declares (endings : Endings) : NodePhrase → List Token → List Token → Prop where
  | none {place : Place} {rest : List Token} : Declares endings (.nodes place []) rest rest
  | more {place : Place} {node : Node} {nodes : List Node} {ts mid rest : List Token} :
      Declares endings (.node place node) ts mid → Declares endings (.nodes place nodes) mid rest →
      Declares endings (.nodes place (node :: nodes)) ts rest
  -- 'enum' ID '{' members '}'
  | enumeration {keyword id opening closing : Token} {members : List Node} {ts rest : List Token} :
      keyword.kind = .enumKeyword → id.kind = .identifier → opening.kind = .leftBrace →
      SpellsMembers id.text (some 0) members ts → closing.kind = .rightBrace →
      Declares endings (.node .scope (.enumeration id.text members))
        (keyword :: id :: opening :: ts ++ closing :: rest) rest
  -- 'class' ID generics constructor ';'
  | bodiless {keyword id semicolon : Token} {generics : Option (List String)} {constructor : List Node}
      {ts us rest : List Token} : keyword.kind = .classKeyword → id.kind = .identifier →
      SpellsGenerics generics ts → SpellsConstructor constructor us → semicolon.kind = .semicolon →
      Declares endings (.node .scope (.classDecl id.text generics constructor))
        (keyword :: id :: ts ++ us ++ semicolon :: rest) rest
  -- 'class' ID generics constructor '{' decl* '}'
  | classDecl {keyword id opening closing : Token} {generics : Option (List String)}
      {constructor children : List Node} {ts us vs rest : List Token} :
      keyword.kind = .classKeyword → id.kind = .identifier → SpellsGenerics generics ts →
      SpellsConstructor constructor us → opening.kind = .leftBrace →
      Declares endings (.nodes .scope children) vs (closing :: rest) → closing.kind = .rightBrace →
      Declares endings (.node .scope (.classDecl id.text generics (constructor ++ children)))
        (keyword :: id :: ts ++ us ++ opening :: vs) rest
  -- ('var' | 'val') ID [':' type] ending
  | binding {place : Place} {keyword id : Token} {modifiers : Modifiers} {ty init : Option Expr}
      {getter : Option FunctionDecl} {ts us rest : List Token} : Introduces keyword.kind modifiers →
      id.kind = .identifier → SpellsAnnotation ty ts →
      Declares endings (.ending id.text ty init getter) us rest →
      Declares endings (.node place (.binding ⟨modifiers, id.text, ty, init, getter⟩))
        (keyword :: id :: ts ++ us) rest
  -- 'return' expr ';'
  | ret {keyword semicolon : Token} {e : Expr} {ts rest : List Token} :
      keyword.kind = .returnKeyword → Derives (.infixed 0 e) ts (semicolon :: rest) →
      semicolon.kind = .semicolon → Declares endings (.node .getter (.ret e)) (keyword :: ts) rest
  -- '=' expr ';'
  | value {name : String} {ty : Option Expr} {assign semicolon : Token} {e : Expr}
      {ts rest : List Token} : assign.kind = .assign → Derives (.infixed 0 e) ts (semicolon :: rest) →
      semicolon.kind = .semicolon → Declares endings (.ending name ty (some e) none) (assign :: ts) rest
  -- 'get' '=' expr ';'
  | computed {name : String} {ty : Option Expr} {keyword assign semicolon : Token} {e : Expr}
      {ts rest : List Token} : keyword.kind = .getKeyword → assign.kind = .assign →
      Derives (.infixed 0 e) ts (semicolon :: rest) → semicolon.kind = .semicolon →
      Declares endings (.ending name ty none (some (getterDecl name ty true [.ret e])))
        (keyword :: assign :: ts) rest
  -- 'get' '{' body* '}'
  | getter {name : String} {ty : Option Expr} {keyword opening closing : Token} {body : List Node}
      {ts rest : List Token} : keyword.kind = .getKeyword → opening.kind = .leftBrace →
      Declares endings (.nodes .getter body) ts (closing :: rest) → closing.kind = .rightBrace →
      Declares endings (.ending name ty none (some (getterDecl name ty false body)))
        (keyword :: opening :: ts) rest
  -- ';'
  | typed {name : String} {ty : Expr} {semicolon : Token} {rest : List Token} :
      semicolon.kind = .semicolon →
      Declares endings (.ending name (some ty) none none) (semicolon :: rest) rest
  | unended {name : String} {ty : Expr} {rest : List Token} : endings = .optional →
      Declares endings (.ending name (some ty) none none) rest rest

end Frontend.Grammar
