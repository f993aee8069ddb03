import Frontend.Proofs.WrittenForm

-- The shape of trees in full: what types, expressions and declarations are made of, and that whatever the
-- grammar derives is of that shape.

namespace Frontend

namespace Surface

-- A name, and behind it type arguments or none.  An empty list of them is not the same as none.
inductive IsType : Expr → Prop where
  | plain {name : String} : IsType (.ident name none)
  | applied {name : String} {args : List Expr} : args ≠ [] → (∀ arg ∈ args, IsType arg) →
      IsType (.ident name (some args))

-- Names stand with the arguments of types only, and behind a point without any.
inductive Expr.WellShaped : Expr → Prop where
  | literal {value : Value} : WellShaped (.literal value)
  | name {e : Expr} : IsType e → WellShaped e
  | unary {op : UnaryOperator} {e : Expr} : WellShaped e → WellShaped (.unary op e)
  | binary {op : BinaryOperator} {lhs rhs : Expr} : op ≠ .member → WellShaped lhs → WellShaped rhs →
      WellShaped (.binary op lhs rhs)
  | member {e : Expr} {name : String} : WellShaped e → WellShaped (.binary .member e (.ident name none))
  | grouping {e : Expr} : WellShaped e → WellShaped (.grouping e)
  | call {callee : Expr} {args : List Expr} : WellShaped callee → (∀ arg ∈ args, WellShaped arg) →
      WellShaped (.call callee args)
  | interpolation {parts : List Expr} : (∀ part ∈ parts, WellShaped part) →
      WellShaped (.interpolation parts)

end Surface

namespace Grammar

open Surface

-- What may stand in a place: enums, classes and variables in a scope, variables and returns in a getter.
inductive WellShaped : Place → Node → Prop where
  | enumeration {name : String} {members : List Node} :
      (∀ node ∈ members, ∃ member value, node = .binding (memberDecl name member value)) →
      WellShaped .scope (.enumeration name members)
  | bodyOnly {name : String} {generics : Option (List String)} {children : List Node} :
      (∀ node ∈ children, WellShaped .scope node) →
      WellShaped .scope (.classDecl name generics children)
  | constructed {name : String} {generics : Option (List String)} {parameters : List Parameter}
      {children : List Node} : (∀ p ∈ parameters, IsType p.ty) →
      (∀ node ∈ children, WellShaped .scope node) →
      WellShaped .scope (.classDecl name generics (.function (constructorDecl parameters) :: children))
  | plain {place : Place} {modifiers : Modifiers} {name : String} {ty init : Option Expr} :
      (ty.isSome ∨ init.isSome) → (∀ written ∈ ty, IsType written) → (∀ e ∈ init, e.WellShaped) →
      WellShaped place (.binding ⟨modifiers, name, ty, init, none⟩)
  -- The short form of a getter has one `return` for its body.
  | accessor {place : Place} {modifiers : Modifiers} {name : String} {ty : Option Expr}
      {internal : Bool} {body : List Node} : (∀ written ∈ ty, IsType written) →
      (internal = true → ∃ value, body = [.ret value]) → (∀ node ∈ body, WellShaped .getter node) →
      WellShaped place (.binding ⟨modifiers, name, ty, none, some (getterDecl name ty internal body)⟩)
  | ret {value : Expr} : value.WellShaped → WellShaped .getter (.ret value)

variable {ts rest : List Token} {children : List Node}

-- The types of a phrase; a list of them is never empty.
def TypePhrase.Typed : TypePhrase → Prop
  | .type e => IsType e
  | .types es | .closed es => es ≠ [] ∧ ∀ e ∈ es, IsType e

theorem Spells.typed {phrase : TypePhrase} (spells : Spells phrase ts) : phrase.Typed := by
  induction spells with
  | name _ => exact IsType.plain
  | applied _ _ args => exact IsType.applied args.1 args.2
  | one _ first => exact ⟨List.cons_ne_nil _ _, List.forall_mem_singleton.2 first⟩
  | more _ _ _ first others => exact ⟨List.cons_ne_nil _ _, List.forall_mem_cons.2 ⟨first, others.2⟩⟩
  | closed _ _ _ types => exact types

theorem Writes.not_member {kind : TokenKind} {op : BinaryOperator} {level : Nat}
    (writes : Writes kind op level) : op ≠ .member := by
  rintro rfl
  have found := writes_iff.1 writes
  cases kind <;> cases found

theorem literalText_wellShaped (text : String) : ∀ part ∈ literalText text, part.WellShaped := by
  intro part within
  unfold literalText at within
  split at within
  · cases within
  · rw [List.mem_singleton.1 within]
    exact .literal

def ExprPhrase.WellShaped : ExprPhrase → Prop
  | .infixed _ e | .prefixed e | .ranged e | .postfixed e | .primary e => e.WellShaped
  | .items es | .pieces es => ∀ e ∈ es, e.WellShaped

-- The texts of a string and the expression behind them, before what is known already.
theorem wellShaped_pieces {text : String} {e : Expr} {parts : List Expr} (shaped : e.WellShaped)
    (others : ∀ part ∈ parts, part.WellShaped) :
    ∀ part ∈ literalText text ++ e :: parts, part.WellShaped :=
  List.forall_mem_append.2 ⟨literalText_wellShaped text, List.forall_mem_cons.2 ⟨shaped, others⟩⟩

theorem Derives.wellShaped {phrase : ExprPhrase} (derives : Derives phrase ts rest) :
    phrase.WellShaped := by
  have called {name : String} {args : List Expr} (shaped : ∀ arg ∈ args, arg.WellShaped) :
      (Expr.call (.plain name) args).WellShaped := .call (.name .plain) shaped
  induction derives with
  | operand _ shaped | unprefixed _ shaped | single _ shaped | plain _ shaped => exact shaped
  | binary _ _ writes _ left right => exact .binary writes.not_member left right
  | not _ _ shaped | negate _ _ shaped => exact .unary shaped
  | range _ _ _ first last =>
    exact called (List.forall_mem_cons.2 ⟨first, List.forall_mem_singleton.2 last⟩)
  | member _ _ _ shaped => exact .member shaped
  | call _ _ _ _ callee args => exact .call callee args
  | element _ _ _ _ object args => exact .call (.member object) args
  | literal _ _ | string _ _ _ => exact .literal
  | name _ _ => exact .name .plain
  | generic _ spells =>
    obtain ⟨some, types⟩ := spells.typed
    exact .name (.applied some types)
  | group _ _ _ shaped => exact .grouping shaped
  | list _ _ _ items => exact called items
  | interpolation _ _ _ _ _ shaped others => exact .interpolation (wellShaped_pieces shaped others)
  | none => exact List.forall_mem_nil _
  | last _ shaped => exact List.forall_mem_singleton.2 shaped
  | more _ _ _ shaped others => exact List.forall_mem_cons.2 ⟨shaped, others⟩
  | textEnd _ _ => exact literalText_wellShaped _
  | segment _ _ _ _ shaped others => exact wellShaped_pieces shaped others

theorem SpellsAnnotation.typed {ty : Option Expr} (annotates : SpellsAnnotation ty ts) :
    ∀ written ∈ ty, IsType written := by
  cases annotates with
  | none => exact nofun
  | type _ spells =>
    intro _ same
    cases same
    exact spells.typed

theorem SpellsParameters.typed {ps : List Parameter} (spells : SpellsParameters ps ts) :
    ∀ p ∈ ps, IsType p.ty := by
  have one {p : Parameter} {ts : List Token} (spells : SpellsParameter p ts) : IsType p.ty := by
    cases spells with
    | typed _ _ _ type => exact type.typed
  induction spells with
  | none => exact List.forall_mem_nil _
  | last first => exact List.forall_mem_singleton.2 (one first)
  | more first _ _ others => exact List.forall_mem_cons.2 ⟨one first, others⟩

theorem SpellsConstructor.wellShaped {constructor : List Node} {name : String}
    {generics : Option (List String)} (spells : SpellsConstructor constructor ts)
    (shaped : ∀ node ∈ children, WellShaped .scope node) :
    WellShaped .scope (.classDecl name generics (constructor ++ children)) := by
  cases spells with
  | none => exact .bodyOnly shaped
  | parameters _ parameters _ => exact .constructed parameters.typed shaped

-- What a derivation says of the shape of a phrase.  The type of a variable stands before its ending.
def NodePhrase.WellShaped : NodePhrase → Prop
  | .nodes place all => ∀ child ∈ all, Grammar.WellShaped place child
  | .node place one => Grammar.WellShaped place one
  | .ending name ty init getter => (∀ written ∈ ty, IsType written) → ∀ place modifiers,
    Grammar.WellShaped place (.binding ⟨modifiers, name, ty, init, getter⟩)

theorem Declares.wellShaped {endings : Endings} {phrase : NodePhrase}
    (declares : Declares endings phrase ts rest) : phrase.WellShaped := by
  induction declares with
  | none => exact List.forall_mem_nil _
  | more _ _ first others => exact List.forall_mem_cons.2 ⟨first, others⟩
  | enumeration _ _ _ spells _ => exact WellShaped.enumeration spells.formed
  | @bodiless _ _ _ _ constructor _ _ _ _ _ _ constructs _ =>
    have shaped : ∀ node ∈ [], WellShaped .scope node := List.forall_mem_nil _
    rw [← List.append_nil constructor]
    exact constructs.wellShaped shaped
  | classDecl _ _ _ constructs _ _ _ body => exact constructs.wellShaped body
  | binding _ _ annotates _ ending => exact ending annotates.typed _ _
  | ret _ derives _ => exact WellShaped.ret derives.wellShaped
  | value _ derives _ =>
    intro types _ _
    exact .plain (.inr rfl) types fun _ same => by cases same; exact derives.wellShaped
  | computed _ _ derives _ =>
    intro types _ _
    exact .accessor types (fun _ => ⟨_, rfl⟩) (List.forall_mem_singleton.2 (.ret derives.wellShaped))
  | getter _ _ _ _ body => exact fun types _ _ => .accessor types nofun body
  | typed | unended => exact fun types _ _ => .plain (.inl rfl) types nofun

end Grammar

end Frontend
