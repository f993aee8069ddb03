import Frontend.Compilation
import Frontend.Proofs.ProgramReading
import Frontend.Proofs.WellShaped

-- A tree of the right shape is never refused for the form of a declaration.  What typing can still find wrong
-- are names, types and operators; that a form has no place, or that no number is left for a member of an enum,
-- it finds only in trees that no source is read as.

namespace Frontend

-- The error says something else than that a declaration is not of a form it could have there.
def TypingError.FormAccepted : TypingError → Prop
  | .unsupportedDeclaration _ | .enumOverflow _ => False
  | _ => True

namespace Typing

open Grammar (Place WellShaped constructorDecl getterDecl memberDecl)
open Scope (Ref Tree TypedExpr)
open Surface (BindingDecl BinaryOperator FunctionDecl Node)

-- Whatever is wrong, it is not the form.
def Accepts {α : Type} (x : Except TypingError α) : Prop := ∀ e, x = .error e → e.FormAccepted

variable {α β : Type} {x : Except TypingError α} {f : α → Except TypingError β} {t : Tree} {scope : Ref}

namespace Accepts

theorem ok {a : α} : Accepts (.ok a) := nofun

theorem error {e : TypingError} (accepted : e.FormAccepted) : Accepts (.error e : Except _ α) := by
  intro _ same
  cases same
  exact accepted

theorem andThen (first : Accepts x) (goesOn : ∀ a, Accepts (f a)) : Accepts (x >>= f) := by
  cases x with
  | error e => exact .error (first e rfl)
  | ok a => exact goesOn a

end Accepts

mutual

theorem resolveType_accepts : ∀ ty : Surface.Expr, Accepts (resolveType t scope ty)
  | .ident name generics => by
    rw [resolveType]
    split
    · exact .error trivial
    · exact (resolveGenerics_accepts generics).andThen fun _ => .ok
  | .literal _ | .unary _ _ | .binary _ _ _ | .grouping _ | .call _ _ | .interpolation _ => .error trivial

theorem resolveGenerics_accepts : ∀ generics : Option (List Surface.Expr),
    Accepts (resolveGenerics t scope generics)
  | none => .ok
  | some args => resolveTypes_accepts args

theorem resolveTypes_accepts : ∀ types : List Surface.Expr, Accepts (resolveTypes t scope types)
  | [] => .ok
  | ty :: types => (resolveType_accepts ty).andThen fun _ => resolveTypes_accepts types

end

theorem operationType_accepts (op : BinaryOperator) (lhs rhs : Ref) :
    Accepts (operationType t op lhs rhs) := by
  unfold operationType
  split
  · exact .error trivial
  · dsimp only
    split
    · exact .ok
    · exact .error trivial

theorem typeExpr_accepts : ∀ written : Surface.Expr, Accepts (typeExpr t written)
  | .literal _ => .ok
  | .grouping inner => typeExpr_accepts inner
  | .binary op lhs rhs => by
    apply (typeExpr_accepts lhs).andThen
    intro left
    apply (typeExpr_accepts rhs).andThen
    intro right
    exact (operationType_accepts op _ _).andThen fun _ => .ok
  | .ident _ _ | .unary _ _ | .call _ _ | .interpolation _ => .error trivial

theorem resolveAnnotation_accepts (ty : Option Surface.Expr) :
    Accepts <| resolveAnnotation t scope ty := by
  cases ty with
  | none => exact .ok
  | some ty => exact (resolveType_accepts ty).andThen fun _ => .ok

theorem typeInit_accepts (init : Option Surface.Expr) : Accepts (typeInit t init) := by
  cases init with
  | none => exact .ok
  | some e => exact (typeExpr_accepts e).andThen fun _ => .ok

theorem resolveParameters_accepts (parameters : List Surface.Parameter) :
    Accepts (resolveParameters t scope parameters) := by
  induction parameters with
  | nil => exact .ok
  | cons p ps ih => exact (resolveType_accepts p.ty).andThen fun _ => ih.andThen fun _ => .ok

theorem expectType_accepts (name : String) (declared inferred : Ref) :
    Accepts (expectType t name declared inferred) := by
  unfold expectType
  split
  · exact .ok
  · exact .error trivial

theorem expectDeclared_accepts (name : String) (declared : Option Ref) (value : Option TypedExpr) :
    Accepts (expectDeclared t name declared value) := by
  unfold expectDeclared
  split
  · exact expectType_accepts _ _ _
  · exact .ok

theorem add_accepts (name : String) (results : Results) (e : TypedExpr) :
    Accepts (results.add t name e) := by
  unfold Results.add
  split
  · exact (expectType_accepts _ _ _).andThen fun _ => .ok
  · exact .ok

-- Every member has its number written to it, so that none has to be made up.
theorem declareMembers_accepts {enumName : String} {n : Nat} (members : List Node)
    (shaped : ∀ node ∈ members, ∃ member value, node = .binding (memberDecl enumName member value)) :
    ∀ (t : Tree) (next : Option Int64), Accepts (declareMembers t n next members) := by
  induction members with
  | nil => exact fun _ _ => .ok
  | cons node others ih =>
    obtain ⟨⟨member, value, rfl⟩, others⟩ := List.forall_mem_cons.1 shaped
    exact fun t next => Accepts.andThen .ok fun _ => ih others _ _

theorem declareAll_accepts {nodes : List Node}
    (each : ∀ node ∈ nodes, ∀ t scope, Accepts (declare t scope node)) (t : Tree) (scope : Nat) :
    Accepts (declareAll t scope nodes) := by
  induction nodes generalizing t with
  | nil => exact .ok
  | cons node nodes ih =>
    obtain ⟨first, others⟩ := List.forall_mem_cons.1 each
    exact (first t scope).andThen fun t' => ih others t'

-- A variable stands in the body of a getter as it does in a scope; a return only there.
def AcceptedIn : Place → Node → Prop
  | .scope, node => ∀ t scope, Accepts (declare t scope node)
  | .getter, node =>
    (∃ decl, node = .binding decl ∧ ∀ t scope, Accepts (declareBinding t scope decl)) ∨
      ∃ value, node = .ret value

theorem acceptedIn_binding {decl : BindingDecl}
    (accepts : ∀ t scope, Accepts (declareBinding t scope decl)) (place : Place) :
    AcceptedIn place (.binding decl) := by
  cases place with
  | scope => exact accepts
  | getter => exact .inl ⟨decl, rfl, accepts⟩

theorem declareBody_accepts {name : String} {n : Nat} {nodes : List Node}
    (each : ∀ node ∈ nodes, AcceptedIn .getter node) (t : Tree) (results : Results) :
    Accepts (declareBody t n name results nodes) := by
  induction nodes generalizing t results with
  | nil => exact .ok
  | cons node nodes ih =>
    obtain ⟨first, others⟩ := List.forall_mem_cons.1 each
    rcases first with ⟨decl, rfl, accepts⟩ | ⟨value, rfl⟩
    · exact (accepts t n).andThen fun t' => ih others t' results
    · apply (typeExpr_accepts value).andThen
      intro e
      exact (add_accepts name results e).andThen fun results => ih others t results

theorem declareFunction_accepts {decl : FunctionDecl}
    (each : ∀ node ∈ decl.children, AcceptedIn .getter node) (t : Tree) (scope : Nat) :
    Accepts (declareFunction t scope decl) := by
  obtain ⟨static, name, returnType, parameters, internal, children⟩ := decl
  rw [declareFunction]
  apply (resolveAnnotation_accepts _).andThen
  intro declared
  apply (resolveParameters_accepts _).andThen
  intro types
  exact (declareBody_accepts each _ _).andThen fun _ => .ok

theorem declareBinding_accepts {decl : BindingDecl}
    (getters : ∀ getter ∈ decl.getter, ∀ t scope, Accepts (declareFunction t scope getter)) (t : Tree)
    (scope : Nat) : Accepts (declareBinding t scope decl) := by
  obtain ⟨modifiers, name, ty, init, getter⟩ := decl
  rw [declareBinding]
  apply (resolveAnnotation_accepts _).andThen
  intro declared
  apply (typeInit_accepts _).andThen
  intro value
  apply (expectDeclared_accepts _ _ _).andThen
  intro _
  have got : ∀ t, Accepts (declareGetter t scope getter) := by
    intro t
    cases getter with
    | none => exact .ok
    | some getter => exact getters getter rfl t scope
  apply (got _).andThen
  intro result
  split
  · exact .error trivial
  · exact .ok

theorem wellShaped_accepted {place : Place} {node : Node} (shaped : WellShaped place node) :
    AcceptedIn place node := by
  induction shaped with
  | enumeration members => exact fun t scope => declareMembers_accepts _ members _ _
  | bodyOnly _ children => exact fun t scope => declareAll_accepts children _ _
  | constructed _ _ children =>
    intro t scope
    apply declareAll_accepts
    refine List.forall_mem_cons.2 ⟨fun t scope => ?_, children⟩
    exact declareFunction_accepts (List.forall_mem_nil _) t scope
  | plain _ _ _ =>
    refine acceptedIn_binding (declareBinding_accepts fun getter absent => ?_) _
    cases absent
  | accessor _ _ _ body =>
    refine acceptedIn_binding (declareBinding_accepts fun getter same => ?_) _
    cases same
    exact declareFunction_accepts body
  | ret _ => exact .inr ⟨_, rfl⟩

theorem typeProgram_accepts {children : List Node}
    (shaped : ∀ node ∈ children, WellShaped .scope node) : Accepts (typeProgram (.root children)) :=
  declareAll_accepts (fun node within => wellShaped_accepted (shaped node within)) _ _

end Typing

open Grammar Surface

theorem readProgram_wellShaped {source : String} {node : Node} (read : readProgram source = .ok node) :
    ∃ children, node = .root children ∧ ∀ child ∈ children, WellShaped .scope child := by
  obtain ⟨_, children, -, rfl, declares⟩ := readProgram_declares read
  exact ⟨children, rfl, declares.wellShaped⟩

theorem compile_accepts {source : String} {e : TypingError}
    (failed : compile source = .error (.typing e)) : e.FormAccepted := by
  unfold compile at failed
  split at failed
  · cases failed
  · next node read =>
    obtain ⟨children, rfl, shaped⟩ := readProgram_wellShaped read
    split at failed
    · next refused =>
      cases failed
      exact Typing.typeProgram_accepts shaped _ refused
    · cases failed

-- Every tree that is read has the shape that typing expects of it.
--
-- Therefore no source is refused because a declaration has no place where it stands, or because no number
-- is left for a member of an enum: the first is seen to by the grammar, and the second while reading.
theorem read_programs_wellShaped (source : String) :
    (∀ node, readProgram source = .ok node →
      ∃ children, node = .root children ∧ ∀ child ∈ children, WellShaped .scope child) ∧
    (∀ form, compile source ≠ .error (.typing (.unsupportedDeclaration form))) ∧
    ∀ name, compile source ≠ .error (.typing (.enumOverflow name)) :=
  ⟨fun _ => readProgram_wellShaped, fun _ => compile_accepts, fun _ => compile_accepts⟩

end Frontend
