import Frontend.Proofs.NodeGrammar

-- What the declarations look like that a source can be read as.

namespace Frontend.Grammar

open Surface

inductive Formed : Place → Node → Prop where
  | enumeration {name : String} {members : List Node} :
      (∀ node ∈ members, ∃ member value, node = .binding (memberDecl name member value)) →
      Formed .scope (.enumeration name members)
  | bodyOnly {name : String} {generics : Option (List String)} {children : List Node} :
      (∀ node ∈ children, Formed .scope node) → Formed .scope (.classDecl name generics children)
  | constructed {name : String} {generics : Option (List String)} {parameters : List Parameter}
      {children : List Node} : (∀ node ∈ children, Formed .scope node) →
      Formed .scope (.classDecl name generics (.function (constructorDecl parameters) :: children))
  | plain {place : Place} {modifiers : Modifiers} {name : String} {ty init : Option Expr} :
      (ty.isSome ∨ init.isSome) → Formed place (.binding ⟨modifiers, name, ty, init, none⟩)
  | accessor {place : Place} {modifiers : Modifiers} {name : String} {ty : Option Expr}
      {internal : Bool} {body : List Node} : (∀ node ∈ body, Formed .getter node) →
      Formed place (.binding ⟨modifiers, name, ty, none, some (getterDecl name ty internal body)⟩)
  | ret {value : Expr} : Formed .getter (.ret value)

variable {ts rest : List Token} {place : Place} {children : List Node}

theorem SpellsMembers.formed {name : String} {next : Option Int64} {members : List Node}
    (spells : SpellsMembers name next members ts) :
    ∀ node ∈ members, ∃ member value, node = .binding (memberDecl name member value) := by
  induction spells with
  | none => exact nofun
  | last => exact List.forall_mem_singleton.2 ⟨_, _, rfl⟩
  | more _ _ _ _ _ others => exact List.forall_mem_cons.2 ⟨⟨_, _, rfl⟩, others⟩

theorem SpellsConstructor.formed {constructor : List Node} {name : String}
    {generics : Option (List String)} (spells : SpellsConstructor constructor ts)
    (formed : ∀ node ∈ children, Formed .scope node) :
    Formed .scope (.classDecl name generics (constructor ++ children)) := by
  cases spells with
  | none => exact .bodyOnly formed
  | parameters => exact .constructed formed

-- What a derivation says of the form of a phrase.
def FormedPhrase : NodePhrase → Prop
  | .nodes place nodes => ∀ node ∈ nodes, Formed place node
  | .node place node => Formed place node
  | .ending name ty init getter => ∀ place modifiers,
    Formed place (.binding ⟨modifiers, name, ty, init, getter⟩)

theorem Declares.formed {endings : Endings} {phrase : NodePhrase}
    (declares : Declares endings phrase ts rest) : FormedPhrase phrase := by
  induction declares with
  | none => exact List.forall_mem_nil _
  | more _ _ first others => exact List.forall_mem_cons.2 ⟨first, others⟩
  | enumeration _ _ _ spells _ => exact Formed.enumeration spells.formed
  | @bodiless _ _ _ _ constructor _ _ _ _ _ _ constructs _ =>
    have formed : ∀ node ∈ [], Formed .scope node := List.forall_mem_nil _
    rw [← List.append_nil constructor]
    exact constructs.formed formed
  | classDecl _ _ _ constructs _ _ _ body => exact constructs.formed body
  | binding _ _ _ _ ending => exact ending _ _
  | ret => exact Formed.ret
  | value => exact fun _ _ => Formed.plain (.inr rfl)
  | computed => exact fun _ _ => Formed.accessor (List.forall_mem_singleton.2 .ret)
  | getter _ _ _ _ body => exact fun _ _ => Formed.accessor body
  | typed | unended => exact fun _ _ => Formed.plain (.inl rfl)

end Frontend.Grammar
