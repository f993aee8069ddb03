import Frontend.Proofs.DeclaredEntries
import Frontend.Proofs.RecordedTypes
import Frontend.Proofs.Scanning

-- Which functions implement the operations of a program.  A function is looked for from the type of the left
-- operand and then from that of the right one, among those that were entered before the operation is read.
-- The scopes around a type count as well as the type itself.

namespace Frontend

open Scope (Draft Entry Kind Primitive Ref Tree TypedExpr)
open Scope.Tree
open Surface (BinaryOperator Node)

namespace Scope

-- An expression, and all the expressions in it.
def TypedExpr.parts : TypedExpr → List TypedExpr
  | literal value ty => [literal value ty]
  | binary op lhs rhs ty => binary op lhs rhs ty :: (lhs.parts ++ rhs.parts)

def Kind.parameterTypes : Kind → List Ref
  | function _ _ _ parameters _ => parameters.map Parameter.ty
  | _ => []

namespace Tree

-- The functions in `scope` that add operands of the two types and are among the first `n` entries.
def additionsBefore (t : Tree) (n : Nat) (lhs rhs scope : Ref) : List Ref :=
  (t.children scope).filter fun r =>
    decide (r.Before (.declared n)) && (t.get? r).any (Entry.isFunctionNamed "+" [lhs, rhs])

-- The last of these functions in the nearest scope, from `start` outwards, that has one.
def NearestAddition (t : Tree) (n : Nat) (lhs rhs start f : Ref) : Prop :=
  ∃ inner scope outer, t.scopes start = inner ++ scope :: outer ∧
    (∀ s ∈ inner, t.additionsBefore n lhs rhs s = []) ∧
    (t.additionsBefore n lhs rhs scope).getLast? = some f

-- The scopes around the right type only count where those around the left one have no such function.
def ChosenAddition (t : Tree) (n : Nat) (lhs rhs f : Ref) : Prop :=
  t.NearestAddition n lhs rhs lhs f ∨
    (∀ s ∈ t.scopes lhs, t.additionsBefore n lhs rhs s = []) ∧ t.NearestAddition n lhs rhs rhs f

-- The function stands in the left type, or in the right one and the left one has none.
def OwnAddition (t : Tree) (n : Nat) (lhs rhs f : Ref) : Prop :=
  f ∈ t.additionsBefore n lhs rhs lhs ∨
    t.additionsBefore n lhs rhs lhs = [] ∧ f ∈ t.additionsBefore n lhs rhs rhs

-- The operations of the expression, which was read when there were `n` entries, come from functions that are
-- chosen so, and from the types of the operands unless there is such a function in another scope around them.
def Implements (t : Tree) (n : Nat) (e : TypedExpr) : Prop :=
  ∀ op lhs rhs ty, .binary op lhs rhs ty ∈ e.parts → op = .add ∧
    ∃ f, t.ChosenAddition n lhs.ty rhs.ty f ∧ Typing.returnType? t f = some ty ∧
      ((∀ s ∈ t.scopes lhs.ty ++ t.scopes rhs.ty, s ≠ lhs.ty → s ≠ rhs.ty →
        t.additionsBefore n lhs.ty rhs.ty s = []) → t.OwnAddition n lhs.ty rhs.ty f)

variable {s t : Tree} {n : Nat} {x f lhs rhs start : Ref}

theorem NearestAddition.found (near : t.NearestAddition n lhs rhs start f) :
    ∃ scope ∈ t.scopes start, f ∈ t.additionsBefore n lhs rhs scope := by
  obtain ⟨inner, scope, outer, scopes, -, last⟩ := near
  exact ⟨scope, by simp [scopes], List.mem_of_getLast? last⟩

-- A function in the first scope is preferred to all others.
theorem NearestAddition.inside (near : t.NearestAddition n lhs rhs start f)
    (any : t.additionsBefore n lhs rhs start ≠ []) : f ∈ t.additionsBefore n lhs rhs start := by
  obtain ⟨inner, scope, outer, scopes, none, last⟩ := near
  obtain ⟨others, first⟩ := scopes_self t start
  rw [first] at scopes
  cases inner with
  | nil =>
    cases scopes
    exact List.mem_of_getLast? last
  | cons y inner =>
    cases scopes
    exact absurd (none start List.mem_cons_self) any

theorem ChosenAddition.own (chosen : t.ChosenAddition n lhs rhs f)
    (others : ∀ s ∈ t.scopes lhs ++ t.scopes rhs, s ≠ lhs → s ≠ rhs → t.additionsBefore n lhs rhs s = []) :
    t.OwnAddition n lhs rhs f := by
  by_cases none : t.additionsBefore n lhs rhs lhs = []
  · obtain ⟨scope, among, found⟩ : ∃ s ∈ t.scopes lhs ++ t.scopes rhs, f ∈ t.additionsBefore n lhs rhs s := by
      rcases chosen with left | ⟨-, right⟩
      · obtain ⟨scope, among, found⟩ := left.found
        exact ⟨scope, List.mem_append_left _ among, found⟩
      · obtain ⟨scope, among, found⟩ := right.found
        exact ⟨scope, List.mem_append_right _ among, found⟩
    have any := List.ne_nil_of_mem found
    have apart : scope ≠ lhs := by
      rintro rfl
      exact any none
    by_cases same : scope = rhs
    · exact .inr ⟨none, same ▸ found⟩
    · exact absurd (others scope among apart same) any
  · rcases chosen with left | ⟨nowhere, -⟩
    · exact .inl (left.inside none)
    · exact absurd (nowhere lhs (mem_scopes_self lhs)) none

end Tree

end Scope

namespace Typing

variable {task : Task} {scope n : Nat} {s t t' : Tree} {d : Draft} {f : Draft → Draft} {x lhs rhs : Ref}

def ParametersKnown (t : Tree) : Prop :=
  ∀ k d, t.draft? k = some d → ∀ r ∈ d.kind.parameterTypes, r.Before (.declared k)

namespace ParametersKnown

theorem push (known : ParametersKnown t) (new : ∀ r ∈ d.kind.parameterTypes, r.Before (.declared t.size)) :
    ParametersKnown (t.push n d) := by
  intro k d' is
  rw [draft?_push] at is
  split at is
  · next last =>
    cases is
    rwa [last]
  · exact known k d' is

theorem modify (known : ParametersKnown t) (same : ∀ d, (f d).kind.parameterTypes = d.kind.parameterTypes) :
    ParametersKnown (t.modify n f) := by
  intro k d' is
  rw [draft?_modify] at is
  split at is
  · obtain ⟨d, was, rfl⟩ := Option.map_eq_some_iff.1 is
    rw [same]
    exact known k d was
  · exact known k d' is

theorem empty : ParametersKnown .empty := by
  intro k d is
  have first : k = 0 := Nat.lt_one_iff.1 (draft?_lt is)
  subst first
  cases is
  exact List.forall_mem_nil _

end ParametersKnown

theorem withType_parameters (ty : Ref) (d : Draft) : (withType ty d).kind.parameterTypes = d.kind.parameterTypes := by
  unfold withType
  split
  · next kind => rw [kind]; rfl
  · rfl

theorem withResults_parameters (returnType : Option Ref) (returns : List TypedExpr) (d : Draft) :
    (withResults returnType returns d).kind.parameterTypes = d.kind.parameterTypes := by
  unfold withResults
  split
  · next kind => rw [kind]; rfl
  · rfl

theorem Named.before {r : Ref} (named : Named t n r) (nested : Nested t) : r.Before (.declared n) := by
  obtain ⟨name, near⟩ := named
  obtain ⟨⟨_, _, _, _, _, _, _, _, before⟩, -⟩ := near.found nested
  exact before

theorem Enters.parametersKnown (enters : Enters task scope t t') (within : scope < t.size) (nested : Nested t)
    (known : ParametersKnown t) : ParametersKnown t' := by
  induction enters with
  | none | memberless | bodyEnd => exact known
  | more first _ ih ih' | bodyBinding first _ ih ih' =>
    exact ih' (Nat.lt_of_lt_of_le within first.kept.size) (first.nested within nested) (ih within nested known)
  | enumeration _ inner | classDecl _ inner =>
    exact inner (by simp) (nested.push within) (known.push (List.forall_mem_nil _))
  | member _ _ others =>
    exact others (within_push within) (nested.push within) (known.push (List.forall_mem_nil _))
  | plain => exact known.push (List.forall_mem_nil _)
  | accessor _ _ _ _ _ getter =>
    exact (getter (within_push within) (nested.push within) (known.push (List.forall_mem_nil _))).modify
      (withType_parameters _)
  | @function static name _ parameters internal _ declared types _ scope t _ _ typed _ body =>
    refine (body (by simp) (nested.push within) (known.push fun r among => ?_)).modify (withResults_parameters _ _)
    obtain ⟨q, member, rfl⟩ := List.mem_map.1 among
    let d : Draft := ⟨name, .function static [] declared types [], internal⟩
    have accepted := resolveParameters_means (d := d) nested within parameters typed
    exact (accepted_named accepted q member).before (nested.push within)
  | standing _ inner | bodyReturn _ _ _ inner => exact inner within nested known

namespace Precedes

variable (precedes : Precedes s t) (nested : Nested s)

include precedes

theorem parent_known (known : s.contains x) : t.parent x = s.parent x := by
  cases x with
  | builtin which => rfl
  | declared m => exact precedes.parent m (contains_declared.1 known)

theorem fits_known (known : s.contains x) (name : String) (types : List Ref) :
    (t.get? x).any (Entry.isFunctionNamed name types) = (s.get? x).any (Entry.isFunctionNamed name types) := by
  cases x with
  | builtin which => rfl
  | declared m => exact precedes.isFunctionNamed (contains_declared.1 known) name types

include nested

theorem scopes (x : Ref) (known : s.contains x) : t.scopes x = s.scopes x :=
  scopes_same (P := (s.contains · = true)) (fun _ _ _ => nested.contains_parent) (fun _ => precedes.parent_known) x
    known

variable (nested' : Nested t)

include nested'

-- The children that were there then are those that were added before.
theorem children (x : Ref) :
    (t.children x).filter (fun r => decide (r.Before (.declared s.size))) = s.children x := by
  cases x with
  | builtin which => rcases which with ⟨_ | _ | _ | _⟩ | _ <;> rfl
  | declared q =>
    have same : s.inside q =
        (List.range s.size).filter fun m => t.parent (.declared m) = some (.declared q) :=
      List.filter_congr fun m among => by rw [precedes.parent m (List.mem_range.1 among)]
    rw [nested'.children_before precedes.size, childrenBefore, ← same, nested.children]

theorem additionsBefore (x : Ref) : t.additionsBefore s.size lhs rhs x =
    (s.children x).filter fun r => (s.get? r).any (Entry.isFunctionNamed "+" [lhs, rhs]) := by
  rw [Tree.additionsBefore, ← List.filter_congr fun r child => precedes.fits_known (nested.contains_child child) "+" _,
    ← precedes.children nested nested' x, List.filter_filter]
  simp only [Bool.and_comm]

theorem findChild_addition (x : Ref) : s.findChild (Entry.isFunctionNamed "+" [lhs, rhs]) x =
    (t.additionsBefore s.size lhs rhs x).getLast? := by
  rw [precedes.additionsBefore nested nested', findChild_eq]

theorem nearestAddition {start f : Ref} (known : s.contains start)
    (found : s.findFunction start "+" [lhs, rhs] = some f) : t.NearestAddition s.size lhs rhs start f := by
  obtain ⟨inner, scope, outer, scopes, here, none⟩ := List.findSome?_eq_some_iff.1 found
  refine ⟨inner, scope, outer, ?_, fun q within => ?_, ?_⟩
  · rw [precedes.scopes nested start known, scopes]
  · rw [← List.getLast?_eq_none_iff, ← precedes.findChild_addition nested nested', none q within]
  · rw [← precedes.findChild_addition nested nested', here]

theorem noAddition {start : Ref} (known : s.contains start)
    (nothing : s.findFunction start "+" [lhs, rhs] = none) :
    ∀ q ∈ t.scopes start, t.additionsBefore s.size lhs rhs q = [] := by
  intro q around
  rw [precedes.scopes nested start known] at around
  have none := List.findSome?_eq_none_iff.1 nothing q around
  rwa [precedes.findChild_addition nested nested', List.getLast?_eq_none_iff] at none

omit nested nested' in
-- A function that was found then has parameters of types that were there then.
theorem operands_known (known : ParametersKnown t) {start f : Ref} {name : String} {types : List Ref}
    (found : s.findFunction start name types = some f) : ∀ r ∈ types, s.contains r := by
  intro r among
  obtain ⟨e, entry, fits⟩ := find_fits found
  cases f with
  | builtin which =>
    cases entry
    obtain ⟨_, _, _, _, _, kind, -, same⟩ := of_isFunctionNamed fits
    cases which with
    | type primitive => cases kind
    | integerAdd =>
      cases kind
      cases same
      rcases List.mem_pair.1 among with rfl | rfl <;> rfl
  | declared m =>
    have small : m < s.size := get?_isSome.1 (by rw [entry]; rfl)
    obtain ⟨d, is, completed⟩ := precedes.entry m e.toDraft (by rw [draft?, entry]; rfl)
    obtain ⟨e', entry', rfl⟩ := Option.map_eq_some_iff.1 is
    rw [← completed.isFunctionNamed] at fits
    obtain ⟨_, _, _, parameters, _, kind, -, same⟩ := of_isFunctionNamed fits
    have before : r.Before (.declared m) := by
      refine known m e'.toDraft is r ?_
      rwa [kind, Kind.parameterTypes, same]
    cases r with
    | builtin which => rfl
    | declared q => exact contains_declared.2 (Nat.lt_trans before small)

end Precedes

theorem operationType_chosen (precedes : Precedes s t) (nested : Nested s) (nested' : Nested t)
    (known : ParametersKnown t) {op : BinaryOperator} {ty : Ref}
    (typed : operationType s op lhs rhs = .ok ty) :
    op = .add ∧ ∃ f, t.ChosenAddition s.size lhs rhs f ∧ returnType? t f = some ty := by
  obtain ⟨rfl, f, chosen, returned⟩ := operationType_found.1 typed
  refine ⟨rfl, f, ?_, precedes.returnType? returned⟩
  -- Both types are parameters of the function, wherever it is found.
  have operands {start : Ref} (found : s.findFunction start "+" [lhs, rhs] = some f) :
      s.contains lhs ∧ s.contains rhs := by
    have contained := precedes.operands_known known found
    exact ⟨contained lhs (by simp), contained rhs (by simp)⟩
  rcases Option.or_eq_some_iff.1 chosen with left | ⟨nothing, right⟩
  · exact .inl (precedes.nearestAddition nested nested' (operands left).1 left)
  · exact .inr ⟨precedes.noAddition nested nested' (operands right).1 nothing,
      precedes.nearestAddition nested nested' (operands right).2 right⟩

theorem typeExpr_implements (precedes : Precedes s t) (nested : Nested s) (nested' : Nested t)
    (known : ParametersKnown t) : ∀ (written : Surface.Expr) {e : TypedExpr},
    typeExpr s written = .ok e → t.Implements s.size e
  | .literal value, e, typed => by
    cases typed
    intro op lhs rhs ty among
    cases List.mem_singleton.1 among
  | .grouping inner, e, typed => typeExpr_implements precedes nested nested' known inner typed
  | .binary op lhs rhs, e, typed => by
    obtain ⟨left, leftTyped, typed⟩ := bind_eq_ok.1 typed
    obtain ⟨right, rightTyped, typed⟩ := bind_eq_ok.1 typed
    obtain ⟨ty, operation, typed⟩ := bind_eq_ok.1 typed
    cases typed
    intro op' lhs' rhs' ty' among
    rcases List.mem_cons.1 among with same | among
    · cases same
      obtain ⟨rfl, f, chosen, returned⟩ := operationType_chosen precedes nested nested' known operation
      exact ⟨rfl, f, chosen, returned, chosen.own⟩
    · rcases List.mem_append.1 among with inLeft | inRight
      · exact typeExpr_implements precedes nested nested' known lhs leftTyped op' lhs' rhs' ty' inLeft
      · exact typeExpr_implements precedes nested nested' known rhs rightTyped op' lhs' rhs' ty' inRight

theorem Lowers.implements (nested : Nested t) (known : ParametersKnown t) {written : Surface.Expr} {e : TypedExpr}
    (lowers : Lowers t n written e) : t.Implements n e := by
  obtain ⟨s, rfl, nested', precedes, typed⟩ := lowers
  exact typeExpr_implements precedes nested' nested known written typed

-- How many entries there are when the values of a declaration are read.
def Site.places : Site → List Nat
  | ⟨n, _, .member _⟩ => [n]
  | ⟨n, _, .binding decl⟩ => decl.init.toList.map fun _ => n
  | ⟨n, _, .function decl⟩ => (returnSites n (n + 1) decl.children).map Prod.fst
  | _ => []

theorem DescribedAt.implements (nested : Nested t) (known : ParametersKnown t) {site : Site}
    (described : DescribedAt t site) :
    ∃ d, t.draft? site.number = some d ∧ List.Forall₂ t.Implements site.places d.kind.values := by
  obtain ⟨n, scope, declaration⟩ := site
  obtain ⟨d, is, -, -, -, describes⟩ := described
  refine ⟨d, is, ?_⟩
  cases declaration <;> cases kind : d.kind <;> rw [kind] at describes <;> try exact describes.elim
  case enumeration.enumeration | classDecl.classDecl => exact .nil
  case member.binding =>
    obtain ⟨-, -, -, value, -, rfl⟩ := describes
    refine .cons (fun op lhs rhs ty among => ?_) .nil
    cases List.mem_singleton.1 among
  case binding.binding decl modifiers ty init =>
    obtain ⟨-, lowers⟩ := describes
    rw [Site.places]
    generalize decl.init = written at lowers
    cases lowers with
    | none => exact .nil
    | some lowers => exact .cons (lowers.implements nested known) .nil
  case function.function =>
    obtain ⟨-, -, -, lowers⟩ := describes
    exact List.forall₂_map_left_iff.2 (lowers.imp fun _ _ one => one.implements nested known)

end Typing

open Typing

-- Every operation of a program is implemented by a function that was there before it.  The last one in the nearest
-- scope counts, from the type of the left operand outwards, and then from that of the right one.  It stands in the
-- type of an operand where no other scope has one.
theorem operations_implemented {root : Node} {t : Tree} (typed : typeProgram root = .ok t) :
    ∀ k d, t.draft? k = some d → d.kind = .root ∧ k = 0 ∨
      ∃ site ∈ nodeSites 0 1 root, site.number = k ∧ List.Forall₂ t.Implements site.places d.kind.values := by
  cases root with
  | root nodes =>
    have enters : Enters (.nodes nodes) 0 .empty t := declareAll_enters nodes typed
    have within : 0 < Tree.empty.size := Tree.empty.rooted
    have nested := enters.nested within nested_empty
    have known := enters.parametersKnown within nested_empty .empty
    have size : t.size = 1 + (sites 0 1 nodes).length := enters.size
    intro k d is
    cases k with
    | zero =>
      cases (enters.kept.draft? 0 within).symm.trans is
      exact .inl ⟨rfl, rfl⟩
    | succ m =>
      have listed : m + 1 ∈ (nodeSites 0 1 (.root nodes)).map Site.number := by
        have small := draft?_lt is
        rw [nodeSites, sites_numbers, List.mem_range'_1]
        omega
      obtain ⟨site, among, number⟩ := List.mem_map.1 listed
      obtain ⟨d', is', implements⟩ := (enters.described within nested_empty site among).implements nested known
      rw [number] at is'
      cases is.symm.trans is'
      exact .inr ⟨site, among, number, implements⟩
  | _ => cases typed

-- The sums of numbers come from an addition in the root, and their sum from one in its own type.
theorem mixed_additions_implemented :
    let integer : TypedExpr := .literal (.integer 1) Ref.integer
    let double : TypedExpr := .literal (.double ⟨4609434218613702656⟩) (.primitive .double)
    let mixed : TypedExpr := .binary .add integer double (.declared 1)
    let e : TypedExpr := .binary .add mixed mixed Ref.integer
    let written : Surface.Expr := .binary .add (.literal (.integer 1)) (.literal (.double ⟨4609434218613702656⟩))
    let root : Node := .root [
      .classDecl "C" none [.function ⟨true, "+", some (.plain "Integer"),
        [⟨.var, "l", .plain "C"⟩, ⟨.var, "r", .plain "C"⟩], false, []⟩],
      .function ⟨true, "+", some (.plain "C"),
        [⟨.var, "l", .plain "Integer"⟩, ⟨.var, "r", .plain "Double"⟩], false, []⟩,
      .binding ⟨.readOnly, "x", none, some (.binary .add written written), none⟩]
    ∃ t, typeProgram root = .ok t ∧
      t.draft? 4 = some ⟨"x", .binding .readOnly (some Ref.integer) (some e), false⟩ ∧ t.Implements 4 e ∧
      t.additionsBefore 4 Ref.integer (.primitive .double) Ref.root = [.declared 3] ∧
      t.additionsBefore 4 (.declared 1) (.declared 1) (.declared 1) = [.declared 2] ∧
      ∃ f, t.OwnAddition 4 (.declared 1) (.declared 1) f ∧ Typing.returnType? t f = some Ref.integer := by
  intro integer double mixed e written root
  let plus (ty left right : Ref) : Draft :=
    ⟨"+", .function true [] (some ty) [⟨.var, "l", left⟩, ⟨.var, "r", right⟩] [], false⟩
  let t : Tree := (((Tree.empty.push 0 ⟨"C", .classDecl [], false⟩).push 1
    (plus Ref.integer (.declared 1) (.declared 1))).push 0
    (plus (.declared 1) Ref.integer (.primitive .double))).push 0
    ⟨"x", .binding .readOnly (some Ref.integer) (some e), false⟩
  have typed : typeProgram root = .ok t := ok_of_toOption (by decide +kernel)
  obtain ⟨kind, -⟩ | ⟨site, among, number, implements⟩ := operations_implemented typed 4 _ rfl
  · cases kind
  · have implements : t.Implements 4 e := by
      rcases among with _ | ⟨_, _ | ⟨_, _ | ⟨_, _ | ⟨_, ⟨⟩⟩⟩⟩⟩ <;> cases number
      exact (List.forall₂_cons.1 implements).1
    obtain ⟨-, f, -, returned, own⟩ := implements .add mixed mixed Ref.integer List.mem_cons_self
    exact ⟨t, typed, rfl, implements, by decide +kernel, by decide +kernel, f, own (by decide +kernel), returned⟩

-- The only addition of doubles stands in the root, and it is used.
theorem root_addition_used :
    let double : Ref := .primitive .double
    let left : Value := .double ⟨4609434218613702656⟩
    let right : Value := .double ⟨4612811918334230528⟩
    let root : Node := .root [
      .function ⟨true, "+", some (.plain "Double"),
        [⟨.var, "l", .plain "Double"⟩, ⟨.var, "r", .plain "Double"⟩], false, []⟩,
      .binding ⟨.var, "x", none, some (.binary .add (.literal left) (.literal right)), none⟩]
    ∃ t, typeProgram root = .ok t ∧ t.draft? 2 = some ⟨"x", .binding .var (some double)
        (some (.binary .add (.literal left double) (.literal right double) double)), false⟩ ∧
      t.parent (.declared 1) = some Ref.root ∧
      ∀ f ∈ t.children double, ¬ (t.get? f).any (Entry.isFunctionNamed "+" [double, double]) := by
  intro double left right root
  let sum : TypedExpr := .binary .add (.literal left double) (.literal right double) double
  let t : Tree := (Tree.empty.push 0 ⟨"+", .function true [] (some double)
    [⟨.var, "l", double⟩, ⟨.var, "r", double⟩] [], false⟩).push 0 ⟨"x", .binding .var (some double) (some sum), false⟩
  have typed : typeProgram root = .ok t := ok_of_toOption (by decide +kernel)
  exact ⟨t, typed, rfl, rfl, nofun⟩

end Frontend
