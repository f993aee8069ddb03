import Frontend.Proofs.ExprLocality
import Frontend.Proofs.Scanning

-- Declarations are read alike in front of anything.  Each of them ends in a semicolon or in a brace, so that
-- what stands behind it is not looked at.

namespace Frontend.Grammar

open Surface TokenSource Feed

variable {eof : Span} {behind : List Answer} {ts rest : List Token} {α : Type}

theorem signedInteger_local (negative : Bool) :
    Local behind False never (signedInteger negative) (signedInteger negative) := by
  refine (expect_local .integer).andThen fun t => ?_
  split
  · exact .give
  · exact .failAt

theorem memberValue_local (member : Token) (next : Option Int64) :
    Local behind False never (memberValue member next) (memberValue member next) := by
  refine (accept_local .assign).andThen fun assign => ?_
  cases assign with
  | some _ => exact (accept_local .minus).andThen fun _ => signedInteger_local _
  | none =>
    cases next with
    | some _ => exact .give
    | none => exact .failAt

theorem enumMembers_local (enumName : String) (next : Option Int64) :
    Local behind False never (enumMembers enumName next) (enumMembers enumName next) := by
  refine .recurse (fun k k' later next => (accept_local .identifier).andThen fun member => ?_) next
  cases member with
  | none => exact .give
  | some member =>
    refine (memberValue_local member next).andThen fun _ => (accept_local .comma).andThen fun comma => ?_
    cases comma with
    | none => exact .give
    | some _ => exact (later _).andThen fun _ => .give

theorem bindingKeyword_local : Local behind False never bindingKeyword bindingKeyword :=
  (expectAny_local _).andThen fun _ => .give

theorem parameter_local : Local behind False never parameter parameter :=
  bindingKeyword_local.andThen fun _ => identifier_local.andThen fun _ => (expect_local .colon).andThen fun _ =>
    typeExpr_local.andThen fun _ => .give

theorem genericNames_local : Local behind False never genericNames? genericNames? := by
  refine (accept_local .less).andThen fun opening => ?_
  cases opening with
  | none => exact .give
  | some _ =>
    exact identifier_local.andThen fun _ => (afterCommas_local identifier_local).andThen fun _ =>
      (expect_local .greater).andThen fun _ => .give

theorem constructor_local : Local behind False never constructor? constructor? := by
  refine (accept_local .leftParen).andThen fun opening => ?_
  cases opening with
  | none => exact .give
  | some _ =>
    exact (itemsUntil_local _ parameter_local).andThen fun _ => (expect_local .rightParen).andThen fun _ => .give

theorem annotation_local : Local behind False never annotation? annotation? := by
  refine (accept_local .colon).andThen fun colon => ?_
  cases colon with
  | none => exact .give
  | some _ => exact typeExpr_local.andThen fun _ => .give

section Endings

variable {settled : Prop} {body body' : Rule Feed (List Node)}

theorem Local.ends {β : Type} {r r' : Rule Feed α} {kind : TokenKind} {sure : β → Prop} {g : α → β}
    (inner : Local behind False never r r') (other : kind ∉ typeKinds) :
    Local behind settled sure (do let a ← r; let _ ← expect kind; return g a)
      (do let a ← r'; let _ ← expect kind; return g a) :=
  inner.anyway.bind fun _ => (expect_local kind).bind fun _ => .pure fun _ => other

theorem enum_local : Local behind settled (·.isSome) enum? enum? := by
  refine (accept_local .enumKeyword).bind fun keyword => ?_
  cases keyword with
  | none => exact .pure nofun
  | some _ =>
    exact identifier_local.anyway.bind fun _ => (expect_local .leftBrace).bind fun _ =>
      (enumMembers_local _ _).ends (by decide)

theorem return_local : Local behind settled (·.isSome) return? return? := by
  refine (accept_local .returnKeyword).bind fun keyword => ?_
  cases keyword with
  | none => exact .pure nofun
  | some _ => exact expr_local.ends (by decide)

theorem class_local (inner : Local behind False never body body') :
    Local behind settled (·.isSome) (class? body) (class? body') := by
  refine (accept_local .classKeyword).bind fun keyword => ?_
  cases keyword with
  | none => exact .pure nofun
  | some _ =>
    refine identifier_local.anyway.bind fun _ => genericNames_local.anyway.bind fun _ =>
      constructor_local.anyway.bind fun _ => (expectAny_local _).bind fun opening => ?_
    split
    · exact inner.ends (by decide)
    · exact .pure fun _ => by decide

theorem getterBody_local (inner : Local behind False never body body') :
    Local behind settled (fun _ => True) (getterBody body) (getterBody body') := by
  refine (accept_local .assign).bind fun assign => ?_
  cases assign with
  | some _ => exact expr_local.ends (by decide)
  | none => exact (expect_local .leftBrace).bind fun _ => inner.ends (by decide)

theorem bindingRest_local (inner : Local behind False never body body') (name : Token) (ty : Option Expr) :
    Local behind settled (fun _ => True) (bindingRest name ty body) (bindingRest name ty body') := by
  refine (accept_local .assign).bind fun assign => ?_
  cases assign with
  | some _ => exact expr_local.ends (by decide)
  | none =>
    refine (accept_local .getKeyword).bind fun keyword => ?_
    cases keyword with
    | some _ => exact (getterBody_local inner).bind fun _ => .pure fun _ => trivial
    | none =>
      dsimp only
      split
      · exact (expect_local .semicolon).bind fun _ => .pure fun _ => by decide
      · exact .failAt

theorem binding_local (inner : Local behind False never body body') :
    Local behind settled (·.isSome) (binding? body) (binding? body') := by
  refine currentKind_local.anyway.bind fun kind => ?_
  split
  · exact bindingKeyword_local.anyway.bind fun _ => (expect_local .identifier).bind fun name =>
      annotation_local.anyway.bind fun ty => (bindingRest_local inner name ty).bind fun _ => .pure fun _ => trivial
  · exact .pure nofun

theorem declaration_local {bodies bodies' : Place → Rule Feed (List Node)}
    (inner : ∀ place, Local behind False never (bodies place) (bodies' place)) (place : Place) :
    Local behind settled (·.isSome) (declaration? bodies place) (declaration? bodies' place) := by
  cases place with
  | scope =>
    refine enum_local.bind fun node => ?_
    cases node with
    | some node => exact .pure id
    | none =>
      refine (class_local (inner .scope)).bind fun node => ?_
      cases node with
      | some node => exact .pure id
      | none => exact binding_local (inner .getter)
  | getter =>
    refine (binding_local (inner .getter)).bind fun node => ?_
    cases node with
    | some node => exact .pure id
    | none => exact return_local

theorem declarations_local (place : Place) :
    Local behind False never (declarations place) (declarations place) := by
  refine .recurse (fun k k' later place => (declaration_local later place).andThen fun node => ?_) place
  cases node with
  | none => exact .give
  | some _ => exact (later place).andThen fun _ => .give

end Endings

-- A declaration is read in front of anything as it is in front of the end.
theorem Declares.read_before {place : Place} {node : Node} (declares : Declares .required (.node place node) ts rest)
    (behind : List Answer) : declaration? declarations place eof (feedBefore ts behind) =
      .ok (some node) (feedBefore rest behind) := by
  have kept : Local behind False (·.isSome) (declaration? declarations place) (declaration? declarations place) :=
    declaration_local declarations_local place
  obtain ⟨us, others, -, left, -, alike⟩ := kept eof eof ts _ _ declares.declared
  obtain rfl : rest = others := ok_injective (congrArg Feed.ahead left)
  exact alike (.inl rfl)

-- So what is read in front of some answers goes on with what is read off these.
theorem Declares.read_all {place : Place} {nodes : List Node}
    (declares : Declares .required (.nodes place nodes) ts rest) (behind : List Answer) :
    declarations place eof (feedBefore ts behind) =
      ((nodes ++ ·) <$> declarations place) eof (feedBefore rest behind) := by
  induction nodes generalizing ts with
  | nil =>
    cases declares
    exact (congrFun (congrFun (id_map (declarations place)) eof) _).symm
  | cons node nodes ih =>
    cases declares with
    | more first others =>
      rw [declarations_eq, declarationStep, bind_ok (first.read_before behind)]
      dsimp only
      rw [bind_pure_comp]
      simp only [Functor.map, EStateM.map, ih others, List.cons_append]
      cases declarations place eof (feedBefore rest behind) <;> rfl

end Frontend.Grammar
