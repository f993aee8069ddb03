import Frontend.Proofs.WellTyped

-- What expressions come to where no function is named like an operator.  An expression then has a type only if
-- it is a literal or adds up integer literals, whatever parentheses are in it.  Any other expression has the
-- error of its first node that has no meaning.

namespace Frontend

namespace Surface

open Scope (Primitive Ref literalType)

mutual

-- The expression without its parentheses.
def Expr.bare : Expr → Expr
  | .literal v => .literal v
  | .ident name generics => .ident name (bareGenerics generics)
  | .unary op operand => .unary op operand.bare
  | .binary op lhs rhs => .binary op lhs.bare rhs.bare
  | .grouping inner => inner.bare
  | .call callee args => .call callee.bare (bareAll args)
  | .interpolation parts => .interpolation (bareAll parts)

def Expr.bareGenerics : Option (List Expr) → Option (List Expr)
  | none => none
  | some args => some (bareAll args)

def Expr.bareAll : List Expr → List Expr
  | [] => []
  | x :: xs => x.bare :: bareAll xs

end

namespace Expr

-- Integer literals, added up.
inductive Total : Expr → Prop where
  | literal (n : Int64) : Total (.literal (.integer n))
  | add {lhs rhs : Expr} : lhs.Total → rhs.Total → Total (.binary .add lhs rhs)

-- The literal or the sum is of the type.
def Means (e : Expr) (ty : Ref) : Prop :=
  (∃ v, e = .literal v ∧ ty = Ref.primitive (literalType v)) ∨
    ty = Ref.integer ∧ ∃ lhs rhs, e = .binary .add lhs rhs ∧ lhs.Total ∧ rhs.Total

def primitive? : Expr → Option Primitive
  | .literal v => some (literalType v)
  | .grouping inner => inner.primitive?
  | .binary .add lhs rhs =>
    if lhs.primitive? = some .integer ∧ rhs.primitive? = some .integer then some .integer else none
  | _ => none

def typeName (e : Expr) : String := (e.primitive?.map Primitive.name).getD ""

-- What is wrong with a node, apart from the nodes in it.
def offence : Expr → Option TypingError
  | .literal _ | .grouping _ => none
  | .binary .add lhs rhs =>
    if lhs.primitive? = some .integer ∧ rhs.primitive? = some .integer then none
    else some (.unresolvedOperator .add lhs.typeName rhs.typeName)
  | .binary op _ _ => some (.unimplementedOperator op)
  | other => some (.unsupportedExpr other.describe)

-- The nodes that are looked at, operands first.  What is in a node that cannot have a type does not matter.
def visited : Expr → List Expr
  | .binary op lhs rhs => lhs.visited ++ rhs.visited ++ [.binary op lhs rhs]
  | .grouping inner => inner.visited ++ [.grouping inner]
  | other => [other]

def firstOffence? (e : Expr) : Option TypingError := e.visited.findSome? offence

end Expr

end Surface

-- The expression that a typed one was written as, but for parentheses.
def Scope.TypedExpr.written : Scope.TypedExpr → Surface.Expr
  | .literal v _ => .literal v
  | .binary op lhs rhs _ => .binary op lhs.written rhs.written

namespace Typing

open Scope (Primitive Ref Tree TypedExpr)
open Scope.Tree
open Surface (BinaryOperator Expr)

variable {t : Tree} {e : Expr} {ty : Ref} {p q : Primitive}

theorem typeExpr_bare (t : Tree) : ∀ e : Expr, typeExpr t e.bare = typeExpr t e
  | .literal _ => rfl
  | .grouping inner => typeExpr_bare t inner
  | .binary op lhs rhs => by
    rw [Expr.bare, typeExpr, typeExpr_bare t lhs, typeExpr_bare t rhs, typeExpr]
  | .ident _ _ | .unary _ _ | .call _ _ | .interpolation _ => rfl

theorem means_integer : e.Means Ref.integer ↔ e.Total := by
  constructor
  · rintro (⟨v, rfl, same⟩ | ⟨-, lhs, rhs, rfl, left, right⟩)
    · cases v with
      | integer n => exact .literal n
      | _ => cases same
    · exact .add left right
  · intro total
    cases total with
    | literal n => exact .inl ⟨_, rfl, rfl⟩
    | add left right => exact .inr ⟨rfl, _, _, rfl, left, right⟩

theorem primitive_iff : ∀ {e : Expr} {p : Primitive}, e.primitive? = some p ↔ e.bare.Means (Ref.primitive p)
  | .literal v, p => by
    constructor
    · intro same
      cases same
      exact .inl ⟨v, rfl, rfl⟩
    · rintro (⟨_, same, type⟩ | ⟨-, _, _, same, -⟩) <;> cases same
      cases type
      rfl
  | .grouping inner, p => primitive_iff (e := inner)
  | .binary op lhs rhs, p => by
    have left := primitive_iff (e := lhs) (p := .integer)
    have right := primitive_iff (e := rhs) (p := .integer)
    cases op with
    | add =>
      rw [Expr.primitive?]
      constructor
      · intro same
        split at same
        · next both =>
          cases same
          exact .inr ⟨rfl, _, _, rfl, means_integer.1 (left.1 both.1), means_integer.1 (right.1 both.2)⟩
        · cases same
      · rintro (⟨_, same, -⟩ | ⟨type, _, _, same, first, second⟩) <;> cases same
        cases type
        exact if_pos ⟨left.2 (means_integer.2 first), right.2 (means_integer.2 second)⟩
    | _ =>
      refine ⟨nofun, ?_⟩
      rintro (⟨_, same, -⟩ | ⟨-, _, _, same, -⟩) <;> cases same
  | .ident _ _, p | .unary _ _, p | .call _ _, p | .interpolation _, p => by
    refine ⟨nofun, ?_⟩
    rintro (⟨_, same, -⟩ | ⟨-, _, _, same, -⟩) <;> cases same

-- The addition of integers stands in their type, so that no other function is found before it.
theorem findFunction_integer (t : Tree) :
    t.findFunction Ref.integer "+" [Ref.integer, Ref.integer] = some (.builtin .integerAdd) := by
  have outer : t.parent Ref.integer = some Ref.root := rfl
  have here : t.findChild (Scope.Entry.isFunctionNamed "+" [Ref.integer, Ref.integer]) Ref.integer =
      some (.builtin .integerAdd) := rfl
  rw [findFunction, find, scopes, outer]
  dsimp only
  rw [if_pos (by decide), List.findSome?_cons, here]

theorem operationType_integer (t : Tree) : operationType t .add Ref.integer Ref.integer = .ok Ref.integer := by
  rw [operationType]
  simp only [operatorFunction?, findFunction_integer, Option.some_or, Option.bind_some]
  rfl

theorem operationType_unimplemented {op : BinaryOperator} (other : op ≠ .add) (t : Tree) (lhs rhs : Ref) :
    operationType t op lhs rhs = .error (.unimplementedOperator op) := by
  cases op <;> first | rfl | contradiction

theorem operationType_unresolved {lhs rhs : Ref} (operatorless : Operatorless t)
    (other : ¬ (lhs = Ref.integer ∧ rhs = Ref.integer)) :
    operationType t .add lhs rhs = .error (.unresolvedOperator .add (t.name lhs) (t.name rhs)) := by
  cases typed : operationType t .add lhs rhs with
  | ok ty =>
    obtain ⟨-, left, right, -⟩ := operationType_ok operatorless typed
    exact absurd ⟨left, right⟩ other
  | error e =>
    rw [operationType] at typed
    simp only [operatorFunction?] at typed
    split at typed
    · cases typed
    · exact typed.symm

-- What typing an expression comes to, told by the expression alone.
structure Verdict (t : Tree) (e : Expr) : Prop where
  typed : ∀ ty, (∃ value, typeExpr t e = .ok value ∧ value.ty = ty) ↔ e.bare.Means ty
  written : ∀ value, typeExpr t e = .ok value → value.written = e.bare
  refused : ∀ error, typeExpr t e = .error error ↔ e.firstOffence? = some error

theorem firstOffence_binary (op : BinaryOperator) (lhs rhs : Expr) :
    (Expr.binary op lhs rhs).firstOffence? =
      (lhs.firstOffence?.or rhs.firstOffence?).or (Expr.binary op lhs rhs).offence := by
  simp only [Expr.firstOffence?, Expr.visited, List.findSome?_append, List.findSome?_singleton]

theorem firstOffence_grouping (inner : Expr) : (Expr.grouping inner).firstOffence? = inner.firstOffence? := by
  simp [Expr.firstOffence?, Expr.visited, Expr.offence]

theorem firstOffence_none : ∀ {e : Expr} {p : Primitive}, e.primitive? = some p → e.firstOffence? = none
  | .literal _, _, _ => rfl
  | .grouping inner, _, typed => (firstOffence_grouping inner).trans (firstOffence_none (e := inner) typed)
  | .binary op lhs rhs, p, typed => by
    cases op with
    | add =>
      rw [Expr.primitive?] at typed
      split at typed
      · next both =>
        rw [firstOffence_binary, firstOffence_none both.1, firstOffence_none both.2, Expr.offence, if_pos both]
        rfl
      · cases typed
    | _ => cases typed
  | .ident _ _, _, typed | .unary _ _, _, typed | .call _ _, _, typed | .interpolation _, _, typed => nomatch typed

-- The same by what comes out, for the induction.
def Comes (e : Expr) : Except TypingError TypedExpr → Prop
  | .ok value => value.written = e.bare ∧ ∃ p, e.primitive? = some p ∧ value.ty = Ref.primitive p
  | .error error => e.firstOffence? = some error

-- An operation on operands that have types.
theorem comes_operation (operatorless : Operatorless t) (op : BinaryOperator) {lhs rhs : Expr} {left right : TypedExpr}
    (first : Comes lhs (.ok left)) (second : Comes rhs (.ok right)) :
    Comes (.binary op lhs rhs) (do return .binary op left right (← operationType t op left.ty right.ty)) := by
  obtain ⟨leftWritten, p, leftType, leftIs⟩ := first
  obtain ⟨rightWritten, q, rightType, rightIs⟩ := second
  have offence : (Expr.binary op lhs rhs).firstOffence? = (Expr.binary op lhs rhs).offence := by
    rw [firstOffence_binary, firstOffence_none leftType, firstOffence_none rightType]
    rfl
  by_cases add : op = .add
  · subst add
    by_cases both : p = .integer ∧ q = .integer
    · obtain ⟨rfl, rfl⟩ := both
      have typed : operationType t .add left.ty right.ty = .ok Ref.integer := by
        rw [leftIs, rightIs]
        exact operationType_integer t
      rw [typed]
      refine ⟨by rw [TypedExpr.written, leftWritten, rightWritten, Expr.bare], .integer, ?_, rfl⟩
      rw [Expr.primitive?, if_pos ⟨leftType, rightType⟩]
    · have other : ¬ (left.ty = Ref.integer ∧ right.ty = Ref.integer) := by
        rw [leftIs, rightIs]
        exact fun same => both (by simpa [Ref.integer, Ref.primitive] using same)
      rw [operationType_unresolved operatorless other, leftIs, rightIs]
      show Expr.firstOffence? _ = some _
      rw [offence, Expr.offence, if_neg (by simpa [leftType, rightType] using both), Expr.typeName, Expr.typeName,
        leftType, rightType]
      rfl
  · rw [operationType_unimplemented add]
    show Expr.firstOffence? _ = some _
    rw [offence]
    cases op <;> first | rfl | contradiction

theorem comes_binary (operatorless : Operatorless t) {op : BinaryOperator} {lhs rhs : Expr}
    (left : Comes lhs (typeExpr t lhs)) (right : Comes rhs (typeExpr t rhs)) :
    Comes (.binary op lhs rhs) (typeExpr t (.binary op lhs rhs)) := by
  rw [typeExpr]
  cases first : typeExpr t lhs with
  | error e =>
    rw [first] at left
    have left : lhs.firstOffence? = some e := left
    show Expr.firstOffence? _ = some e
    rw [firstOffence_binary, left]
    rfl
  | ok l =>
    rw [first] at left
    cases second : typeExpr t rhs with
    | error e =>
      rw [second] at right
      obtain ⟨-, p, leftType, -⟩ := left
      have right : rhs.firstOffence? = some e := right
      show Expr.firstOffence? _ = some e
      rw [firstOffence_binary, firstOffence_none leftType, right]
      rfl
    | ok r =>
      rw [second] at right
      exact comes_operation operatorless op left right

theorem typeExpr_comes (operatorless : Operatorless t) : ∀ e : Expr, Comes e (typeExpr t e)
  | .literal v => ⟨rfl, _, rfl, rfl⟩
  | .grouping inner => by
    have comes := typeExpr_comes operatorless inner
    rw [typeExpr]
    cases typed : typeExpr t inner <;> rw [typed] at comes
    · exact (firstOffence_grouping inner).trans comes
    · exact comes
  | .binary op lhs rhs => comes_binary operatorless (typeExpr_comes operatorless lhs) (typeExpr_comes operatorless rhs)
  | .ident _ _ | .unary _ _ | .call _ _ | .interpolation _ => rfl

theorem means_primitive (means : e.Means ty) : ∃ p, ty = Ref.primitive p := by
  rcases means with ⟨v, -, rfl⟩ | ⟨rfl, -⟩
  · exact ⟨_, rfl⟩
  · exact ⟨.integer, rfl⟩

theorem verdict_of_operatorless (operatorless : Operatorless t) (e : Expr) : Verdict t e := by
  have comes := typeExpr_comes operatorless e
  cases typed : typeExpr t e with
  | ok value =>
    rw [typed] at comes
    obtain ⟨written, p, type, is⟩ := comes
    refine ⟨fun ty => ⟨?_, fun means => ⟨value, typed, ?_⟩⟩, ?_, fun error => ⟨?_, ?_⟩⟩
    · rintro ⟨_, same, rfl⟩
      cases typed.symm.trans same
      rw [is]
      exact primitive_iff.1 type
    · obtain ⟨q, rfl⟩ := means_primitive means
      rw [is, Option.some.inj (type.symm.trans (primitive_iff.2 means))]
    · intro _ same
      cases typed.symm.trans same
      exact written
    · intro same
      cases typed.symm.trans same
    · intro offence
      rw [firstOffence_none type] at offence
      cases offence
  | error error =>
    rw [typed] at comes
    have comes : e.firstOffence? = some error := comes
    refine ⟨fun ty => ⟨?_, fun means => ?_⟩, ?_, fun error' => ?_⟩
    · rintro ⟨_, same, -⟩
      cases typed.symm.trans same
    · obtain ⟨q, rfl⟩ := means_primitive means
      rw [firstOffence_none (primitive_iff.2 means)] at comes
      cases comes
    · intro _ same
      cases typed.symm.trans same
    · rw [typed, comes, Except.error.injEq, Option.some.injEq]

end Typing

end Frontend
