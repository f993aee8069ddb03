import Frontend.Proofs.TypeSoundness
import Frontend.Proofs.Visibility

-- What the names of types mean when a declaration is entered.  A written type is the nearest one of its name
-- that was declared before, and all other types are those of values.  It stays so, whatever is entered behind
-- it or inside of it.

namespace Frontend

open Scope (Draft Kind Ref Tree TypedExpr)
open Scope.Tree
open Surface (BindingDecl FunctionDecl Modifiers Node)

-- The values that an entry of the kind gives back.
def Scope.Kind.returns : Kind → List TypedExpr
  | .function _ _ _ _ returns => returns
  | _ => []

def Scope.Kind.values : Kind → List TypedExpr
  | .binding _ _ init => init.toList
  | kind => kind.returns

namespace Typing

open Grammar (Formed constructorDecl getterDecl memberDecl)

def Declaration.name : Declaration → String
  | .enumeration name | .classDecl name _ => name
  | .member decl | .binding decl => decl.name
  | .function decl => decl.name

-- Only the body of a getter can be made up.
def Declaration.internal : Declaration → Bool
  | .function decl => decl.internal
  | _ => false

-- What a written type means for the entry `x`.  Its type arguments do not matter.
def Means (t : Tree) (x : Ref) (written : Surface.Expr) (r : Ref) : Prop :=
  ∃ name generics, written = .ident name generics ∧ t.Nearest x name r

-- A parameter with its type.
def Accepted (t : Tree) (x : Ref) (p : Surface.Parameter) (q : Scope.Parameter) : Prop :=
  q.modifiers = p.modifiers ∧ q.name = p.name ∧ Means t x p.ty q.ty

-- The types that are written for a declaration are those of its entry `x`.
def Resolved (t : Tree) (x : Ref) : Declaration → Kind → Prop
  | .enumeration _, .enumeration => True
  | .classDecl _ generics, .classDecl names => names = generics.getD []
  | .member decl, .binding modifiers ty _ | .binding decl, .binding modifiers ty _ =>
    modifiers = decl.modifiers ∧ ∀ written ∈ decl.ty, ∃ r, ty = some r ∧ Means t x written r
  | .function decl, .function static _ returnType parameters _ =>
    static = decl.static ∧ (∀ written ∈ decl.returnType, ∃ r, returnType = some r ∧ Means t x written r) ∧
      List.Forall₂ (Accepted t x) decl.parameters parameters
  | _, _ => False

-- The declaration has the number of the site, in the scope of the site.
def ResolvedAt (t : Tree) (site : Site) : Prop :=
  ∃ d, t.draft? site.number = some d ∧ t.parent (.declared site.number) = some (.declared site.scope) ∧
    d.name = site.declaration.name ∧ d.internal = site.declaration.internal ∧
    Resolved t (.declared site.number) site.declaration d.kind

-- The entry `n` has its type by a name,
def Named (t : Tree) (n : Nat) (r : Ref) : Prop := ∃ name, t.Nearest (.declared n) name r

-- or by a value of its own or of its getter.
def Typed (t : Tree) (n : Nat) : Kind → Prop
  | .binding modifiers ty init => ∃ r, ty = some r ∧ (Named t n r ∨
    (∃ e ∈ (Kind.binding modifiers ty init).values, e.ty = r) ∨
    ∃ d, t.draft? (n + 1) = some d ∧ ∃ e ∈ d.kind.returns, e.ty = r)
  | .function _ _ returnType parameters returns =>
    (∀ r ∈ returnType, Named t n r ∨ ∃ e ∈ returns, e.ty = r) ∧ ∀ p ∈ parameters, Named t n p.ty
  | _ => True

def TypedAt (t : Tree) (n : Nat) : Prop := ∃ d, t.draft? n = some d ∧ Typed t n d.kind

variable {task : Task} {scope n k : Nat} {t t' t'' : Tree} {d : Draft} {f : Draft → Draft} {r x : Ref}

theorem resolveType_means (nested : Nested t) (within : scope < t.size) {written : Surface.Expr}
    (resolved : resolveType t (.declared scope) written = .ok r) :
    Means (t.push scope d) (.declared t.size) written r := by
  cases written with
  | ident name generics =>
    rw [resolveType] at resolved
    split at resolved
    · cases resolved
    · next found =>
      obtain ⟨_, _, same⟩ := bind_eq_ok.1 resolved
      cases same
      exact ⟨name, generics, rfl, findType_nearest nested within found⟩
  | _ => cases resolved

theorem resolveAnnotation_means (nested : Nested t) (within : scope < t.size) {ty : Option Surface.Expr}
    {declared : Option Ref} (resolved : resolveAnnotation t (.declared scope) ty = .ok declared) :
    Option.Rel (Means (t.push scope d) (.declared t.size)) ty declared := by
  cases ty with
  | none => cases resolved; exact .none
  | some written =>
    obtain ⟨r, means, same⟩ := bind_eq_ok.1 resolved
    cases same
    exact .some (resolveType_means nested within means)

theorem resolveParameters_means (nested : Nested t) (within : scope < t.size) :
    ∀ (parameters : List Surface.Parameter) {types : List Scope.Parameter},
      resolveParameters t (.declared scope) parameters = .ok types →
      List.Forall₂ (Accepted (t.push scope d) (.declared t.size)) parameters types
  | [], _, resolved => by
    cases resolved
    exact .nil
  | p :: ps, _, resolved => by
    obtain ⟨ty, first, resolved⟩ := bind_eq_ok.1 resolved
    obtain ⟨others, rest, same⟩ := bind_eq_ok.1 resolved
    cases same
    exact .cons ⟨rfl, rfl, resolveType_means nested within first⟩
      (resolveParameters_means nested within ps rest)

theorem Means.named {written : Surface.Expr} (means : Means t (.declared n) written r) : Named t n r := by
  obtain ⟨name, _, _, nearest⟩ := means
  exact ⟨name, nearest⟩

-- What the entry `n` sees of the first tree it sees of the second one too, and what stands behind it there
-- stands behind it here.
structure Stays (n : Nat) (t t' : Tree) : Prop where
  agree : Agree n t t'
  nested : Nested t
  nested' : Nested t'
  later : ∀ m d, n < m → t.draft? m = some d → t'.draft? m = some d

namespace Stays

theorem refl (nested : Nested t) (small : n < t.size) : Stays n t t :=
  ⟨⟨small, small, fun _ _ => rfl, fun _ _ => rfl⟩, nested, nested, fun _ _ _ stands => stands⟩

variable (stays : Stays n t t')

include stays

theorem means {written : Surface.Expr} (means : Means t (.declared n) written r) :
    Means t' (.declared n) written r := by
  obtain ⟨name, generics, same, near⟩ := means
  exact ⟨name, generics, same, stays.agree.nearest stays.nested stays.nested' near⟩

theorem named (named : Named t n r) : Named t' n r := by
  obtain ⟨name, near⟩ := named
  exact ⟨name, stays.agree.nearest stays.nested stays.nested' near⟩

theorem accepted {p : Surface.Parameter} {q : Scope.Parameter} (accepted : Accepted t (.declared n) p q) :
    Accepted t' (.declared n) p q :=
  ⟨accepted.1, accepted.2.1, stays.means accepted.2.2⟩

theorem resolved {declaration : Declaration} {kind : Kind}
    (resolved : Resolved t (.declared n) declaration kind) :
    Resolved t' (.declared n) declaration kind := by
  have written {ty : Option Surface.Expr} {known : Option Ref}
      (means : ∀ written ∈ ty, ∃ r, known = some r ∧ Means t (.declared n) written r) :
      ∀ written ∈ ty, ∃ r, known = some r ∧ Means t' (.declared n) written r := by
    intro written member
    obtain ⟨r, same, means⟩ := means written member
    exact ⟨r, same, stays.means means⟩
  cases declaration <;> cases kind <;> try exact resolved
  case member.binding | binding.binding => exact ⟨resolved.1, written resolved.2⟩
  case function.function =>
    obtain ⟨static, returned, parameters⟩ := resolved
    exact ⟨static, written returned, parameters.imp fun _ _ => stays.accepted⟩

theorem typed {kind : Kind} (typed : Typed t n kind) : Typed t' n kind := by
  cases kind with
  | binding modifiers ty init =>
    obtain ⟨r, same, named | own | ⟨d, stands, given⟩⟩ := typed
    · exact ⟨r, same, .inl (stays.named named)⟩
    · exact ⟨r, same, .inr (.inl own)⟩
    · exact ⟨r, same, .inr (.inr ⟨d, stays.later _ _ (Nat.lt_succ_self n) stands, given⟩)⟩
  | function static generics returnType parameters returns =>
    obtain ⟨returned, parameters⟩ := typed
    exact ⟨fun r member => (returned r member).imp_left stays.named,
      fun p member => stays.named (parameters p member)⟩
  | _ => trivial

end Stays

theorem Kept.agree (kept : Kept t t') (small : n < t.size) : Agree n t t' where
  inside := small
  inside' := Nat.lt_of_lt_of_le small kept.size
  parent m before := kept.parent m (Nat.lt_of_le_of_lt before small)
  label m before := by rw [kept.draft? m (Nat.lt_trans before small)]

theorem Kept.stays (kept : Kept t t') (nested : Nested t) (nested' : Nested t') (small : n < t.size) :
    Stays n t t' :=
  ⟨kept.agree small, nested, nested', fun m _ _ stands => (kept.draft? m (draft?_lt stands)).trans stands⟩

-- An entry is called the same after the change, and is a type or none as before.
def Discreet (f : Draft → Draft) : Prop := ∀ d, label (f d) = label d

theorem withType_discreet (ty : Ref) : Discreet (withType ty) := by
  intro d
  unfold withType
  split
  · next kind => simp [label, kind, Kind.isType]
  · rfl

theorem withResults_discreet (returnType : Option Ref) (returns : List TypedExpr) :
    Discreet (withResults returnType returns) := by
  intro d
  unfold withResults
  split
  · next kind => simp [label, kind, Kind.isType]
  · rfl

theorem Discreet.agree (discreet : Discreet f) (small : n < t.size) : Agree n t (t.modify k f) where
  inside := small
  inside' := by rw [size_modify]; exact small
  parent m _ := parent_modify
  label m _ := by
    rw [draft?_modify]
    split
    · rw [Option.map_map]
      congr 1
      funext d
      exact discreet d
    · rfl

theorem Discreet.stays (discreet : Discreet f) (nested : Nested t) (small : n < t.size) (other : k < n) :
    Stays n t (t.modify k f) := by
  refine ⟨discreet.agree small, nested, nested.modify, fun m d later stands => ?_⟩
  rw [draft?_modify, if_neg (by omega)]
  exact stands

-- An entry is still told the same when its inside has been entered, and it was changed.
theorem stays_entered (within : scope < t.size) (nested : Nested t) (kept : Kept (t.push scope d) t')
    (nested' : Nested t') (discreet : Discreet f) :
    Stays t.size (t.push scope d) (t'.modify t.size f) := by
  have new : t.size < (t.push scope d).size := by simp
  have first := kept.agree new
  have second := discreet.agree (k := t.size) first.inside'
  refine ⟨⟨new, second.inside', fun m before => (second.parent m before).trans (first.parent m before),
    fun m before => (second.label m before).trans (first.label m before)⟩, nested.push within,
    nested'.modify, fun m d later stands => ?_⟩
  have small := draft?_lt stands
  rw [size_push] at small
  omega

-- The type that is known of a function in the end was declared, or is that of a value.
def Results.Founded (declared : Option Ref) (results : Results) : Prop :=
  ∀ r ∈ results.returnType, declared = some r ∨ ∃ e ∈ results.returns, e.ty = r

theorem Results.add_founded {declared : Option Ref} {name : String} {before after : Results}
    {e : TypedExpr} (added : before.add t name e = .ok after) (_ : e.WellTyped)
    (_ : before.Founded declared) : after.Founded declared := by
  obtain ⟨rfl, -⟩ := Results.add_ok added
  intro r same
  cases same
  exact .inr ⟨e, by simp, rfl⟩

-- What was written is what is known in the end.
theorem written_known {ty : Option Surface.Expr} {declared known : Option Ref} (stays : Stays n t t')
    (means : Option.Rel (Means t (.declared n)) ty declared) (kept : ∀ r ∈ declared, known = some r) :
    ∀ written ∈ ty, ∃ r, known = some r ∧ Means t' (.declared n) written r := by
  intro written member
  cases member
  cases means with
  | some means => exact ⟨_, kept _ rfl, stays.means means⟩

theorem declared_named {ty : Option Surface.Expr} {declared : Option Ref} (stays : Stays n t t')
    (means : Option.Rel (Means t (.declared n)) ty declared) : ∀ r ∈ declared, Named t' n r := by
  intro r member
  cases member
  cases means with
  | some means => exact (stays.means means).named

theorem accepted_named {parameters : List Surface.Parameter} {types : List Scope.Parameter}
    (accepted : List.Forall₂ (Accepted t (.declared n)) parameters types) : ∀ q ∈ types, Named t n q.ty := by
  induction accepted with
  | nil => exact List.forall_mem_nil _
  | cons first _ others => exact List.forall_mem_cons.2 ⟨first.2.2.named, others⟩

theorem Enters.function_entry {decl : FunctionDecl} (enters : Enters (.function decl) scope t t')
    (within : scope < t.size) (nested : Nested t) (operatorless : Operatorless t') :
    ResolvedAt t' ⟨t.size, scope, .function decl⟩ ∧
    ∃ d, t'.draft? t.size = some d ∧ Typed t' t.size d.kind ∧ (decl.returnType = Option.none →
      ∀ r, returnType? t' (.declared t.size) = some r → ∃ e ∈ d.kind.returns, e.ty = r) := by
  cases enters with
  | @function static name returnType parameters internal _ declared types results _ _ t' resolved typed
      inner =>
    have operatorless := (withResults_mild results.returnType results.returns).operatorless.1 operatorless
    have stays := stays_entered within nested inner.kept (inner.nested (by simp) (nested.push within))
      (withResults_discreet results.returnType results.returns)
    have accepted := (resolveParameters_means nested within parameters typed).imp fun _ _ => stays.accepted
    have is : (t'.modify t.size (withResults results.returnType results.returns)).draft? t.size =
        some ⟨name, .function static [] results.returnType types results.returns, internal⟩ :=
      inner.kept.draft?_entered
    have known : ∀ r ∈ declared, results.returnType = some r := by
      rintro r ⟨⟩
      have keeps : Task.Keeps (Results.Known r) _ := inner.keeps operatorless Results.add_known
      exact keeps rfl
    have founded : results.Founded declared := by
      have keeps : Task.Keeps (Results.Founded declared) _ :=
        inner.keeps operatorless Results.add_founded
      exact keeps fun r same => .inl same
    refine ⟨⟨_, is, inner.kept.parent_entered, rfl, rfl, rfl,
      written_known stays (resolveAnnotation_means nested within resolved) known, accepted⟩, _, is,
      ⟨fun r member => ?_, fun q member => ?_⟩, ?_⟩
    · exact (founded r member).imp_left
        (declared_named stays (resolveAnnotation_means nested within resolved) r)
    · exact accepted_named accepted q member
    · rintro rfl r returned
      rw [returnType?_draft is] at returned
      cases resolved
      exact (founded r returned).resolve_left nofun

end Typing

end Frontend
