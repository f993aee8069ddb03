import Frontend.Proofs.Growth
import Frontend.Proofs.Lookups

-- What it means for the types of expressions and entries to be right, and that expressions come out so.  The
-- only operation that has a type is the addition of two integers, as long as no function that is entered is
-- named like an operator.

namespace Frontend

namespace Scope

-- The type of a literal.
def literalType : Value → Primitive
  | .integer _ => .integer
  | .double _ => .double
  | .string _ => .string
  | .boolean _ => .boolean

-- Each literal has the type of its value, and each operation adds two integers up to an integer.
def TypedExpr.WellTyped : TypedExpr → Prop
  | .literal value ty => ty = Ref.primitive (literalType value)
  | .binary op lhs rhs ty => lhs.WellTyped ∧ rhs.WellTyped ∧
    op = .add ∧ lhs.ty = Ref.integer ∧ rhs.ty = Ref.integer ∧ ty = Ref.integer

def Kind.isFunction : Kind → Bool
  | .function .. => true
  | _ => false

namespace Tree

-- Whether what stands in `scope` is a member of an enum.
def inEnum (t : Tree) (scope : Option Ref) : Bool :=
  (scope.bind t.get?).any fun e => e.kind = .enumeration

-- The types of an entry of the given kind that stands in `scope` are right.
def Sound (t : Tree) (scope : Option Ref) : Kind → Prop
  | .binding _ ty init =>
    ty.isSome ∧ (∀ value ∈ init, value.WellTyped) ∧
    -- A member of an enum has the enum as its type, and a number as its value.
    if t.inEnum scope then
      ty = scope ∧ ∃ n, init = some (.literal (.integer n) Ref.integer)
    else ∀ value ∈ init, ty = some value.ty
  | .function _ _ returnType _ returns =>
    ∀ value ∈ returns, value.WellTyped ∧ returnType = some value.ty
  | _ => True

-- No function of the tree implements an operator.
def Operatorless (t : Tree) : Prop :=
  ∀ n d, t.draft? n = some d → d.kind.isFunction → d.name ≠ "+"

end Tree

end Scope

namespace Typing

open Scope (Draft Kind Ref Tree TypedExpr)
open Scope.Tree
open Surface (BinaryOperator)

variable {t t' : Tree} {scope : Ref} {d : Draft} {p : Nat}

theorem of_isFunctionNamed {e : Scope.Entry} {name : String} {types : List Ref}
    (fits : e.isFunctionNamed name types) : ∃ static generics returnType parameters returns,
      e.kind = .function static generics returnType parameters returns ∧ e.name = name ∧
        parameters.map Scope.Parameter.ty = types := by
  unfold Scope.Entry.isFunctionNamed at fits
  split at fits
  · next kind =>
    simp only [Bool.and_eq_true, beq_iff_eq] at fits
    exact ⟨_, _, _, _, _, kind, fits⟩
  · cases fits

-- Whatever function is found for an operator, it is the built-in one.
theorem findFunction_plus {lhs rhs id : Ref} (operatorless : Operatorless t)
    (found : t.findFunction scope "+" [lhs, rhs] = some id) :
    lhs = Ref.integer ∧ rhs = Ref.integer ∧ returnType? t id = some Ref.integer := by
  obtain ⟨e, entry, fits⟩ := find_fits found
  obtain ⟨_, _, _, parameters, _, kind, named, types⟩ := of_isFunctionNamed fits
  cases id with
  | builtin which =>
    cases entry
    cases which with
    | type primitive => cases kind
    | integerAdd =>
      cases kind
      cases types
      exact ⟨rfl, rfl, rfl⟩
  | declared n =>
    have stands : t.draft? n = some e.toDraft := by rw [draft?, entry]; rfl
    exact (operatorless n _ stands (by rw [kind]; rfl) named).elim

-- Only additions have a type, and it is that of the function which is found.
theorem operationType_found {op : BinaryOperator} {lhs rhs ty : Ref} :
    operationType t op lhs rhs = .ok ty ↔ op = .add ∧ ∃ id,
      (t.findFunction lhs "+" [lhs, rhs]).or (t.findFunction rhs "+" [lhs, rhs]) = some id ∧
        returnType? t id = some ty := by
  cases op with
  | add =>
    simp only [operationType, operatorFunction?, true_and, ← Option.bind_eq_some_iff]
    split
    · next returned => rw [returned, Except.ok.injEq, Option.some.injEq]
    · next returned => exact ⟨nofun, fun found => nomatch returned.symm.trans found⟩
  | _ => exact ⟨nofun, fun both => nomatch both.1⟩

theorem operationType_ok {op : BinaryOperator} {lhs rhs ty : Ref} (operatorless : Operatorless t)
    (typed : operationType t op lhs rhs = .ok ty) :
    op = .add ∧ lhs = Ref.integer ∧ rhs = Ref.integer ∧ ty = Ref.integer := by
  obtain ⟨rfl, id, found, returned⟩ := operationType_found.1 typed
  have integers : lhs = Ref.integer ∧ rhs = Ref.integer ∧ returnType? t id = some Ref.integer := by
    rcases Option.or_eq_some_iff.1 found with left | ⟨-, right⟩
    · exact findFunction_plus operatorless left
    · exact findFunction_plus operatorless right
  rw [integers.2.2] at returned
  cases returned
  exact ⟨rfl, integers.1, integers.2.1, rfl⟩

theorem typeExpr_wellTyped (operatorless : Operatorless t) : ∀ (written : Surface.Expr) {e : TypedExpr},
    typeExpr t written = .ok e → e.WellTyped
  | .literal value, e, typed => by
    cases typed
    rfl
  | .grouping inner, e, typed => typeExpr_wellTyped operatorless inner typed
  | .binary op lhs rhs, e, typed => by
    obtain ⟨left, leftTyped, typed⟩ := bind_eq_ok.1 typed
    obtain ⟨right, rightTyped, typed⟩ := bind_eq_ok.1 typed
    obtain ⟨ty, operation, typed⟩ := bind_eq_ok.1 typed
    cases typed
    exact ⟨typeExpr_wellTyped operatorless lhs leftTyped, typeExpr_wellTyped operatorless rhs rightTyped,
      operationType_ok operatorless operation⟩

mutual

-- What a written type means is decided by what the names mean in the scope.
theorem resolveType_same (same : ∀ name, t'.findType scope name = t.findType scope name) :
    ∀ ty : Surface.Expr, resolveType t' scope ty = resolveType t scope ty
  | .ident name generics => by
    rw [resolveType, resolveType, same, resolveGenerics_same same generics]
  | .literal _ | .unary _ _ | .binary _ _ _ | .grouping _ | .call _ _ | .interpolation _ => rfl

theorem resolveGenerics_same (same : ∀ name, t'.findType scope name = t.findType scope name) :
    ∀ generics : Option (List Surface.Expr),
      resolveGenerics t' scope generics = resolveGenerics t scope generics
  | none => rfl
  | some args => resolveTypes_same same args

theorem resolveTypes_same (same : ∀ name, t'.findType scope name = t.findType scope name) :
    ∀ args : List Surface.Expr, resolveTypes t' scope args = resolveTypes t scope args
  | [] => rfl
  | x :: xs => by
    rw [resolveTypes, resolveTypes, resolveType_same same x, resolveTypes_same same xs]

end

-- A variable leaves the meaning of the types around it as it is.
theorem resolveAnnotation_push (nested : Nested t) (within : p < t.size)
    (noType : d.kind.isType = false) (ty : Option Surface.Expr) :
    resolveAnnotation (t.push p d) (.declared p) ty = resolveAnnotation t (.declared p) ty := by
  have same := findType_push (d := d) nested within noType (contains_declared.2 within)
  cases ty with
  | none => rfl
  | some ty => rw [ resolveAnnotation, resolveAnnotation, resolveType_same same]

-- All values are right, and of the type that is known by now.
def Results.Sound (results : Results) : Prop :=
  ∀ value ∈ results.returns, value.WellTyped ∧ results.returnType = some value.ty

theorem expectType_ok {name : String} {declared inferred : Ref}
    (expected : expectType t name declared inferred = .ok ()) : declared = inferred := by
  unfold expectType at expected
  split at expected
  · assumption
  · cases expected

theorem Results.add_ok {name : String} {before after : Results} {e : TypedExpr}
    (added : before.add t name e = .ok after) :
    after = ⟨some e.ty, before.returns ++ [e]⟩ ∧ ∀ ty, before.returnType = some ty → ty = e.ty := by
  unfold Results.add at added
  split at added
  · next ty known =>
    obtain ⟨_, expected, added⟩ := bind_eq_ok.1 added
    obtain rfl := expectType_ok expected
    cases added
    exact ⟨rfl, fun _ same => Option.some.inj (same.symm.trans known)⟩
  · next unknown =>
    cases added
    exact ⟨rfl, fun _ same => by rw [unknown] at same; cases same⟩

theorem Results.add_sound {name : String} {before after : Results} {e : TypedExpr}
    (added : before.add t name e = .ok after) (wellTyped : e.WellTyped) (sound : before.Sound) :
    after.Sound := by
  obtain ⟨rfl, same⟩ := Results.add_ok added
  intro value member
  rcases List.mem_append.1 member with old | new
  · obtain ⟨good, known⟩ := sound value old
    exact ⟨good, congrArg some (same _ known).symm⟩
  · obtain rfl := List.mem_singleton.1 new
    exact ⟨wellTyped, rfl⟩

def Results.Known (ty : Ref) (results : Results) : Prop := results.returnType = some ty

theorem Results.add_known {name : String} {before after : Results} {e : TypedExpr} {ty : Ref}
    (added : before.add t name e = .ok after) (_ : e.WellTyped) (known : before.Known ty) :
    after.Known ty := by
  obtain ⟨rfl, same⟩ := Results.add_ok added
  exact congrArg some (same ty known).symm

-- A change that keeps the name of an entry, and its kind up to types and values.
structure Mild (f : Draft → Draft) : Prop where
  name : ∀ d, (f d).name = d.name
  function : ∀ d, (f d).kind.isFunction = d.kind.isFunction
  enumeration : ∀ d, (f d).kind = .enumeration ↔ d.kind = .enumeration

theorem withType_mild (ty : Ref) : Mild (withType ty) := by
  constructor <;> intro d <;> unfold withType <;> split <;> simp_all [Kind.isFunction]

theorem withResults_mild (returnType : Option Ref) (returns : List TypedExpr) :
    Mild (withResults returnType returns) := by
  constructor <;> intro d <;> unfold withResults <;> split <;> simp_all [Kind.isFunction]

variable {f : Draft → Draft} {n k : Nat}

theorem inEnum_eq : t.inEnum (some (.declared n)) = (t.draft? n).any fun d => d.kind = .enumeration := by
  rw [inEnum, draft?, Option.bind_some]
  cases t.get? (.declared n) <;> rfl

theorem Kept.inEnum (kept : Kept t t') (small : n < t.size) :
    t'.inEnum (some (.declared n)) = t.inEnum (some (.declared n)) := by
  rw [inEnum_eq, inEnum_eq, kept.draft? n small]

theorem Mild.inEnum (mild : Mild f) :
    (t.modify k f).inEnum (some (.declared n)) = t.inEnum (some (.declared n)) := by
  rw [inEnum_eq, inEnum_eq, draft?_modify]
  split
  · cases t.draft? n with
    | none => rfl
    | some d => simp [mild.enumeration d]
  · rfl

theorem Kept.operatorless (kept : Kept t t') (operatorless : Operatorless t') : Operatorless t := by
  intro n d stands
  have small : n < t.size := draft?_lt stands
  exact operatorless n d ((kept.draft? n small).trans stands)

theorem Mild.operatorless (mild : Mild f) : Operatorless (t.modify k f) ↔ Operatorless t := by
  constructor
  · intro operatorless n d stands function
    have changed : (t.modify k f).draft? n = some (if n = k then f d else d) := by
      rw [draft?_modify, stands]
      split <;> rfl
    have other := operatorless n _ changed
    split at other
    · rw [mild.name, mild.function] at other
      exact other function
    · exact other function
  · intro operatorless n d stands function
    rw [draft?_modify] at stands
    split at stands
    · obtain ⟨old, stood, rfl⟩ := Option.map_eq_some_iff.1 stands
      rw [mild.name]
      rw [mild.function] at function
      exact operatorless n old stood function
    · exact operatorless n d stands function

theorem operatorless_push (operatorless : Operatorless t) (good : d.kind.isFunction → d.name ≠ "+") :
    Operatorless (t.push p d) := by
  intro n d' stands
  rw [draft?_push] at stands
  split at stands
  · cases stands
    exact good
  · exact operatorless n d' stands

variable {task : Task} {place : Nat}

def Task.Keeps (P : Results → Prop) : Task → Prop
  | .body _ before after _ => P before → P after
  | _ => True

theorem Enters.keeps {P : Results → Prop} (enters : Enters task place t t')
    (operatorless : Operatorless t')
    (add : ∀ {t : Tree} {name before after e}, before.add t name e = .ok after → e.WellTyped →
      P before → P after) : task.Keeps P := by
  induction enters with
  | bodyEnd => exact id
  | bodyBinding _ _ _ others => exact others operatorless
  | bodyReturn typed added enters others =>
    have wellTyped := typeExpr_wellTyped (enters.kept.operatorless operatorless) _ typed
    exact fun before => others operatorless (add added wellTyped before)
  | _ => trivial

end Typing

end Frontend
