import Frontend.Proofs.Preorder
import Frontend.Proofs.ScopeRules

-- The scope tree of a program lists its declarations.  There is one entry for each declaration, in the order
-- in which they are written, which is also the order of the walk through the tree.  An entry says what was
-- declared, and its values are what was written, read at the place where it was written.

namespace Frontend

open Scope (Draft Entry Kind Primitive Ref Tree TypedExpr)
open Scope.Tree
open Surface (BindingDecl FunctionDecl Node)

namespace Typing

variable {task : Task} {scope k n : Nat} {s t t' t'' : Tree} {d d' d'' : Draft} {f : Draft → Draft}

-- The second draft is the first one with what was found out later.
inductive Completed : Draft → Draft → Prop where
  | same {d : Draft} : Completed d d
  | binding {name : String} {modifiers : Surface.Modifiers} {ty ty' : Option Ref}
      {init : Option TypedExpr} {internal : Bool} : (ty = none ∨ ty' = ty) →
      Completed ⟨name, .binding modifiers ty init, internal⟩ ⟨name, .binding modifiers ty' init, internal⟩
  | function {name : String} {static : Bool} {generics : List String} {ty ty' : Option Ref}
      {parameters : List Scope.Parameter} {returns returns' : List TypedExpr} {internal : Bool} :
      (ty = none ∨ ty' = ty) → (returns = [] ∨ returns' = returns) →
      Completed ⟨name, .function static generics ty parameters returns, internal⟩
        ⟨name, .function static generics ty' parameters returns', internal⟩

theorem unknown_or_same_trans {α : Type} {unknown a b c : α} (first : a = unknown ∨ b = a)
    (second : b = unknown ∨ c = b) : a = unknown ∨ c = a := by
  rcases first with none | rfl
  · exact .inl none
  · exact second

theorem Completed.trans (first : Completed d d') (second : Completed d' d'') : Completed d d'' := by
  cases first with
  | same => exact second
  | binding ty =>
    cases second with
    | same => exact .binding ty
    | binding ty' => exact .binding (unknown_or_same_trans ty ty')
  | function ty returns =>
    cases second with
    | same => exact .function ty returns
    | function ty' returns' =>
      exact .function (unknown_or_same_trans ty ty') (unknown_or_same_trans returns returns')

-- The first tree may have been the second one before more was entered.
structure Precedes (t t' : Tree) : Prop where
  size : t.size ≤ t'.size
  parent : ∀ n < t.size, t'.parent (.declared n) = t.parent (.declared n)
  entry : ∀ n d, t.draft? n = some d → ∃ d', t'.draft? n = some d' ∧ Completed d d'

namespace Precedes

theorem trans (first : Precedes t t') (second : Precedes t' t'') : Precedes t t'' where
  size := Nat.le_trans first.size second.size
  parent n small :=
    (second.parent n (Nat.lt_of_lt_of_le small first.size)).trans (first.parent n small)
  entry n d is := by
    obtain ⟨d', is', completed⟩ := first.entry n d is
    obtain ⟨d'', is'', completed'⟩ := second.entry n d' is'
    exact ⟨d'', is'', completed.trans completed'⟩

theorem modify (completes : ∀ d, t.draft? k = some d → Completed d (f d)) : Precedes t (t.modify k f) where
  size := by simp
  parent n _ := parent_modify
  entry n d is := by
    rw [draft?_modify]
    split
    · next here =>
      subst here
      exact ⟨f d, by rw [is]; rfl, completes d is⟩
    · exact ⟨d, is, .same⟩

end Precedes

theorem Kept.precedes (kept : Kept t t') : Precedes t t' where
  size := kept.size
  parent := kept.parent
  entry n d is := ⟨d, (kept.draft? n (draft?_lt is)).trans is, .same⟩

-- The expression means this where `n` entries have been entered.
def Lowers (t : Tree) (n : Nat) (written : Surface.Expr) (e : TypedExpr) : Prop :=
  ∃ s : Tree, s.size = n ∧ Nested s ∧ Precedes s t ∧ typeExpr s written = .ok e

theorem Lowers.later {written : Surface.Expr} {e : TypedExpr} (lowers : Lowers t n written e)
    (precedes : Precedes t t') : Lowers t' n written e := by
  obtain ⟨s, size, nested, earlier, typed⟩ := lowers
  exact ⟨s, size, nested, earlier.trans precedes, typed⟩

theorem Completed.isFunctionNamed {e e' : Entry} (completed : Completed e.toDraft e'.toDraft) (name : String)
    (types : List Ref) : e'.isFunctionNamed name types = e.isFunctionNamed name types := by
  obtain ⟨d, _, _⟩ := e
  obtain ⟨d', _, _⟩ := e'
  cases completed <;> rfl

namespace Precedes

theorem isFunctionNamed (precedes : Precedes s t) (small : n < s.size) (name : String) (types : List Ref) :
    (t.get? (.declared n)).any (Entry.isFunctionNamed name types) =
      (s.get? (.declared n)).any (Entry.isFunctionNamed name types) := by
  obtain ⟨e, found⟩ := Option.isSome_iff_exists.1 (get?_isSome.2 small)
  obtain ⟨d, is, completed⟩ := precedes.entry n e.toDraft (by rw [draft?, found]; rfl)
  obtain ⟨e', found', rfl⟩ := Option.map_eq_some_iff.1 is
  rw [found, found']
  exact completed.isFunctionNamed name types

-- A type that a function is known to give back is the one that it has in the end.
theorem returnType? {x ty : Ref} (precedes : Precedes s t) (known : Typing.returnType? s x = some ty) :
    Typing.returnType? t x = some ty := by
  cases x with
  | builtin which => exact known
  | declared n =>
    obtain ⟨⟨d, p, c⟩, found, returned⟩ := Option.bind_eq_some_iff.1 known
    obtain ⟨d', is, completed⟩ := precedes.entry n d (by rw [draft?, found]; rfl)
    obtain ⟨⟨_, p', c'⟩, found', rfl⟩ := Option.map_eq_some_iff.1 is
    rw [Typing.returnType?, found', Option.bind_some]
    cases completed with
    | same => exact returned
    | binding => cases returned
    | function later =>
      rcases later with rfl | rfl
      · cases returned
      · exact returned

end Precedes

-- The first two trees are the third one at the same time, as far as it is known then.
structure Coeval (s s' t : Tree) : Prop where
  size : s.size = s'.size
  nested : Nested s
  nested' : Nested s'
  first : Precedes s t
  second : Precedes s' t

namespace Coeval

variable {s' : Tree} (coeval : Coeval s s' t)

include coeval

theorem parent (x : Ref) : s'.parent x = s.parent x := by
  cases x with
  | builtin which => rfl
  | declared n =>
    by_cases small : n < s.size
    · rw [← coeval.first.parent n small, coeval.second.parent n (coeval.size ▸ small)]
    · have outside {u : Tree} (size : u.size = s.size) : u.parent (.declared n) = none := by
        cases stands : u.parent (.declared n) with
        | none => rfl
        | some outer => exact absurd (size ▸ parent_lt stands) small
      rw [outside rfl, outside coeval.size.symm]

theorem children (x : Ref) : s'.children x = s.children x := by
  cases x with
  | builtin which => rfl
  | declared p =>
    have same : s'.inside p = s.inside p := by
      simp only [inside, coeval.size, coeval.parent]
    rw [coeval.nested.children, coeval.nested'.children, same]

theorem scopes (x : Ref) : s'.scopes x = s.scopes x :=
  scopes_same (P := fun _ => True) (fun _ _ _ _ => trivial) (fun x _ => coeval.parent x) x trivial

theorem isFunctionNamed (x : Ref) (name : String) (types : List Ref) :
    (s'.get? x).any (Entry.isFunctionNamed name types) =
      (s.get? x).any (Entry.isFunctionNamed name types) := by
  cases x with
  | builtin which => rfl
  | declared n =>
    by_cases small : n < s.size
    · rw [← coeval.first.isFunctionNamed small, coeval.second.isFunctionNamed (coeval.size ▸ small)]
    · have outside {u : Tree} (size : u.size = s.size) : u.get? (.declared n) = none := by
        rw [← Option.not_isSome_iff_eq_none, get?_isSome, size]
        exact small
      rw [outside rfl, outside coeval.size.symm]

theorem findFunction (x : Ref) (name : String) (types : List Ref) :
    s'.findFunction x name types = s.findFunction x name types := by
  have same : s'.findChild (Entry.isFunctionNamed name types) =
      s.findChild (Entry.isFunctionNamed name types) := by
    funext scope
    rw [findChild, findChild, coeval.children]
    congr 1
    funext child
    exact coeval.isFunctionNamed child name types
  rw [Tree.findFunction, Tree.findFunction, find, find, coeval.scopes, same]

theorem operationType {op : Surface.BinaryOperator} {lhs rhs ty ty' : Ref}
    (typed : operationType s op lhs rhs = .ok ty) (typed' : Typing.operationType s' op lhs rhs = .ok ty') :
    ty = ty' := by
  obtain ⟨rfl, x, found, known⟩ := operationType_found.1 typed
  obtain ⟨-, x', found', known'⟩ := operationType_found.1 typed'
  rw [coeval.findFunction, coeval.findFunction] at found'
  cases found.symm.trans found'
  exact Option.some.inj ((coeval.first.returnType? known).symm.trans (coeval.second.returnType? known'))

theorem typeExpr : ∀ {written : Surface.Expr} {e e' : TypedExpr},
    typeExpr s written = .ok e → Typing.typeExpr s' written = .ok e' → e = e'
  | .literal _, _, _, typed, typed' => by
    cases typed
    cases typed'
    rfl
  | .grouping _, _, _, typed, typed' => by
    rw [Typing.typeExpr] at typed typed'
    exact typeExpr typed typed'
  | .binary op lhs rhs, _, _, typed, typed' => by
    obtain ⟨left, first, typed⟩ := bind_eq_ok.1 typed
    obtain ⟨right, second, typed⟩ := bind_eq_ok.1 typed
    obtain ⟨ty, operation, same⟩ := bind_eq_ok.1 typed
    obtain ⟨left', first', typed'⟩ := bind_eq_ok.1 typed'
    obtain ⟨right', second', typed'⟩ := bind_eq_ok.1 typed'
    obtain ⟨ty', operation', same'⟩ := bind_eq_ok.1 typed'
    cases typeExpr first first'
    cases typeExpr second second'
    cases coeval.operationType operation operation'
    exact Except.ok.inj (same.symm.trans same')

end Coeval

theorem Lowers.unique {written : Surface.Expr} {e e' : TypedExpr} (lowers : Lowers t n written e)
    (lowers' : Lowers t n written e') : e = e' := by
  obtain ⟨s, rfl, nested, precedes, typed⟩ := lowers
  obtain ⟨s', size, nested', precedes', typed'⟩ := lowers'
  exact Coeval.typeExpr ⟨size.symm, nested, nested', precedes, precedes'⟩ typed typed'

theorem init_later {init : Option Surface.Expr} {value : Option TypedExpr}
    (lowers : Option.Rel (Lowers t n) init value) (precedes : Precedes t t') :
    Option.Rel (Lowers t' n) init value := by
  cases lowers with
  | none => exact .none
  | some lowers => exact .some (lowers.later precedes)

-- The values that a body gives back, each with the number that is due to the next entry there.
def returnSites (scope next : Nat) : List Node → List (Nat × Surface.Expr)
  | [] => []
  | .ret value :: nodes => (next, value) :: returnSites scope next nodes
  | node :: nodes => returnSites scope (next + (nodeSites scope next node).length) nodes

def LowersAll (t : Tree) : List (Nat × Surface.Expr) → List TypedExpr → Prop :=
  List.Forall₂ fun site e => Lowers t site.1 site.2 e

theorem LowersAll.later {written : List (Nat × Surface.Expr)} {values : List TypedExpr}
    (lowers : LowersAll t written values) (precedes : Precedes t t') : LowersAll t' written values :=
  lowers.imp fun _ _ one => one.later precedes

theorem typeInit_lowers {init : Option Surface.Expr} {value : Option TypedExpr}
    (typed : typeInit t init = .ok value) (nested : Nested t) (kept : Kept t t') :
    Option.Rel (Lowers t' t.size) init value := by
  cases init with
  | none => cases typed; exact .none
  | some written =>
    obtain ⟨e, means, same⟩ := bind_eq_ok.1 typed
    cases same
    exact .some ⟨t, rfl, nested, kept.precedes, means⟩

-- The rest of a body gives back its values in order, and does not change a type that is known.
def Task.Gives (scope : Nat) (t t' : Tree) : Task → Prop
  | .body _ before after written => (before.returnType = Option.none ∨ after.returnType = before.returnType) ∧
    ∃ values, after.returns = before.returns ++ values ∧ LowersAll t' (returnSites scope t.size written) values
  | _ => True

theorem Enters.gives (enters : Enters task scope t t') (within : scope < t.size) (nested : Nested t) :
    task.Gives scope t t' := by
  induction enters with
  | bodyEnd => exact ⟨.inr rfl, [], (List.append_nil _).symm, .nil⟩
  | bodyBinding first _ _ others =>
    have within' := Nat.lt_of_lt_of_le within first.kept.size
    obtain ⟨known, values, returns, lowers⟩ := others within' (first.nested within nested)
    rw [first.size] at lowers
    exact ⟨known, values, returns, lowers⟩
  | @bodyReturn _ before _ _ _ e _ _ _ _ typed added inner others =>
    obtain ⟨rfl, same⟩ := Results.add_ok added
    obtain ⟨known, values, returns, lowers⟩ := others within nested
    refine ⟨?_, e :: values, by rw [returns, List.append_assoc]; rfl,
      .cons ⟨_, rfl, nested, inner.kept.precedes, typed⟩ lowers⟩
    cases declared : before.returnType with
    | none => exact .inl rfl
    | some ty =>
      rw [same ty declared]
      exact .inr (known.resolve_left nofun)
  | _ => trivial

-- What an entry of the kind shows of a declaration that stands in `scope` and has the number `n`.
def Describes (t : Tree) (n scope : Nat) : Declaration → Kind → Prop
  | .enumeration _, .enumeration => True
  | .classDecl _ generics, .classDecl names => names = generics.getD []
  | .member decl, .binding modifiers ty init =>
    modifiers = decl.modifiers ∧ ty = some (.declared scope) ∧ ∃ next value,
      memberValue decl next = .ok value ∧ init = some (.literal (.integer value) Ref.integer)
  | .binding decl, .binding modifiers _ init =>
    modifiers = decl.modifiers ∧ Option.Rel (Lowers t n) decl.init init
  | .function decl, .function static generics _ parameters returns =>
    static = decl.static ∧ generics = [] ∧
      parameters.map (fun p => (p.modifiers, p.name)) = decl.parameters.map (fun p => (p.modifiers, p.name)) ∧
      LowersAll t (returnSites n (n + 1) decl.children) returns
  | _, _ => False

def DescribedAt (t : Tree) (site : Site) : Prop :=
  ∃ d, t.draft? site.number = some d ∧ t.parent (.declared site.number) = some (.declared site.scope) ∧
    d.name = site.declaration.name ∧ d.internal = site.declaration.internal ∧
    Describes t site.number site.scope site.declaration d.kind

theorem Describes.later {declaration : Declaration} {kind : Kind}
    (describes : Describes t n scope declaration kind) (precedes : Precedes t t') :
    Describes t' n scope declaration kind := by
  cases declaration <;> cases kind <;> try exact describes
  · obtain ⟨modifiers, init⟩ := describes
    exact ⟨modifiers, init_later init precedes⟩
  · obtain ⟨static, generics, parameters, returns⟩ := describes
    exact ⟨static, generics, parameters, returns.later precedes⟩

namespace DescribedAt

variable {site : Site}

theorem later (described : DescribedAt t site) (precedes : Precedes t t')
    (same : t'.draft? site.number = t.draft? site.number) : DescribedAt t' site := by
  obtain ⟨d, is, stands, name, internal, describes⟩ := described
  exact ⟨d, same.trans is, (precedes.parent _ (draft?_lt is)).trans stands, name, internal,
    describes.later precedes⟩

theorem kept (described : DescribedAt t site) (kept : Kept t t') : DescribedAt t' site := by
  obtain ⟨d, is, -⟩ := id described
  exact described.later kept.precedes (kept.draft? _ (draft?_lt is))

theorem modify (described : DescribedAt t site) (other : k < site.number)
    (completes : ∀ d, t.draft? k = some d → Completed d (f d)) : DescribedAt (t.modify k f) site := by
  refine described.later (.modify completes) ?_
  rw [draft?_modify, if_neg (Nat.ne_of_gt other)]

end DescribedAt

theorem resolveParameters_names {x : Ref} : ∀ (parameters : List Surface.Parameter)
    {types : List Scope.Parameter}, resolveParameters t x parameters = .ok types →
    types.map (fun p => (p.modifiers, p.name)) = parameters.map (fun p => (p.modifiers, p.name))
  | [], _, resolved => by
    cases resolved
    rfl
  | p :: ps, _, resolved => by
    obtain ⟨ty, -, resolved⟩ := bind_eq_ok.1 resolved
    obtain ⟨others, rest, same⟩ := bind_eq_ok.1 resolved
    cases same
    rw [List.map_cons, List.map_cons, resolveParameters_names ps rest]

theorem Task.sites_numbers (next : Nat) : ∀ task : Task,
    (task.sites scope next).map Site.number = List.range' next (task.sites scope next).length
  | .node written => nodeSites_numbers scope next written
  | .nodes written | .body _ _ _ written => Typing.sites_numbers scope next written
  | .members _ written => memberSites_numbers scope next written
  | .function decl => functionSites_numbers scope next decl

theorem Task.le_number {next : Nat} {site : Site} (task : Task) (among : site ∈ task.sites scope next) :
    next ≤ site.number := by
  have number := List.mem_map_of_mem (f := Site.number) among
  rw [task.sites_numbers next] at number
  exact (List.mem_range'_1.1 number).1

-- The type of a variable was known when it was entered, or is found later.
theorem withType_completes {declared : Option Ref} {value : Option TypedExpr} {name : String}
    {modifiers : Surface.Modifiers} {found : Option Ref} {final : Ref} (known : declared.or found = some final) :
    Completed ⟨name, .binding modifiers declared value, false⟩
      (withType final ⟨name, .binding modifiers declared value, false⟩) := by
  refine .binding ?_
  cases declared with
  | none => exact .inl rfl
  | some ty => exact .inr known.symm

theorem Enters.described (enters : Enters task scope t t') (within : scope < t.size) (nested : Nested t) :
    ∀ site ∈ task.sites scope t.size, DescribedAt t' site := by
  induction enters with
  | none | bodyEnd =>
    rw [Task.sites, sites]
    exact List.forall_mem_nil _
  | memberless =>
    rw [Task.sites, memberSites]
    exact List.forall_mem_nil _
  | more first others ih ih' | bodyBinding first others ih ih' =>
    have behind := ih' (Nat.lt_of_lt_of_le within first.kept.size) (first.nested within nested)
    rw [first.size] at behind
    exact List.forall_mem_append.2 ⟨fun site among => (ih within nested site among).kept others.kept, behind⟩
  | enumeration inner ih =>
    have inside := ih (by simp) (nested.push within)
    rw [size_push] at inside
    exact List.forall_mem_cons.2
      ⟨⟨_, inner.kept.draft?_pushed, inner.kept.parent_pushed, rfl, rfl, trivial⟩, inside⟩
  | classDecl inner ih =>
    have inside := ih (by simp) (nested.push within)
    rw [size_push] at inside
    exact List.forall_mem_cons.2
      ⟨⟨_, inner.kept.draft?_pushed, inner.kept.parent_pushed, rfl, rfl, rfl⟩, inside⟩
  | member valued inner ih =>
    have others := ih (within_push within) (nested.push within)
    rw [size_push] at others
    exact List.forall_mem_cons.2 ⟨⟨_, inner.kept.draft?_pushed, inner.kept.parent_pushed, rfl, rfl, rfl, rfl,
      _, _, valued, rfl⟩, others⟩
  | plain _ typed _ _ =>
    exact List.forall_mem_singleton.2 ⟨_, Kept.refl.draft?_pushed, Kept.refl.parent_pushed, rfl, rfl, rfl,
      typeInit_lowers typed nested .push⟩
  | @accessor modifiers name _ _ _ _ value final _ t t' _ typed _ inner known ih =>
    have inside := ih (within_push within) (nested.push within)
    rw [size_push] at inside
    refine List.forall_mem_cons.2 ⟨⟨_, inner.kept.draft?_entered, inner.kept.parent_entered, rfl, rfl, rfl,
      typeInit_lowers typed nested ((Kept.push.trans inner.kept).modify (Nat.le_refl _))⟩, fun site among => ?_⟩
    refine (inside site among).modify (Task.le_number (.function _) among) fun d is => ?_
    cases (inner.kept.draft?_pushed).symm.trans is
    exact withType_completes known
  | @function static name _ _ internal children _ types results _ t t' _ resolved inner ih =>
    have inside := ih (by simp) (nested.push within)
    rw [size_push] at inside
    obtain ⟨known, values, returns, lowers⟩ := inner.gives (by simp) (nested.push within)
    rw [size_push] at lowers
    have given : LowersAll t' (returnSites t.size (t.size + 1) children) results.returns := by
      rw [returns]
      exact lowers
    have completes : ∀ d, t'.draft? t.size = some d →
        Completed d (withResults results.returnType results.returns d) := by
      intro d is
      cases (inner.kept.draft?_pushed).symm.trans is
      exact .function known (.inl rfl)
    exact List.forall_mem_cons.2 ⟨⟨_, inner.kept.draft?_entered, inner.kept.parent_entered, rfl, rfl, rfl, rfl,
      resolveParameters_names _ resolved, given.later (.modify completes)⟩, fun site among =>
      (inside site among).modify (Task.le_number (.nodes _) among) completes⟩
  | standing _ ih => exact ih within nested
  | bodyReturn _ _ _ ih => simpa [Task.sites, sites, nodeSites] using ih within nested

-- What stands in a variable or a function is listed behind it.
def Site.Within (all : List Site) : Site → Prop
  | ⟨n, scope, .binding decl⟩ => bindingSites scope n decl <:+: all
  | ⟨n, scope, .function decl⟩ => functionSites scope n decl <:+: all
  | _ => True

def Closed (part all : List Site) : Prop := ∀ site ∈ part, site.Within all

theorem Closed.mono {part all more : List Site} (closed : Closed part all) (inside : all <:+: more) :
    Closed part more := by
  rintro ⟨n, scope, declaration⟩ among
  have within := closed _ among
  cases declaration with
  | binding decl | function decl => exact List.IsInfix.trans within inside
  | _ => trivial

theorem Closed.cons {site : Site} {part : List Site} (first : site.Within (site :: part))
    (closed : Closed part part) : Closed (site :: part) (site :: part) :=
  List.forall_mem_cons.2 ⟨first, closed.mono (List.suffix_cons _ _).isInfix⟩

theorem Closed.append {part others : List Site} (closed : Closed part part) (closed' : Closed others others) :
    Closed (part ++ others) (part ++ others) :=
  List.forall_mem_append.2 ⟨closed.mono (List.prefix_append _ _).isInfix,
    closed'.mono (List.suffix_append _ _).isInfix⟩

theorem memberSites_closed (scope : Nat) : ∀ (next : Nat) (nodes : List Node),
    Closed (memberSites scope next nodes) (memberSites scope next nodes)
  | _, [] => List.forall_mem_nil _
  | next, .binding _ :: others => .cons trivial (memberSites_closed scope (next + 1) others)
  | next, .root _ :: others | next, .enumeration _ _ :: others | next, .classDecl _ _ _ :: others
  | next, .function _ :: others | next, .ret _ :: others => memberSites_closed scope next others

mutual

theorem nodeSites_closed (scope next : Nat) : ∀ node : Node,
    Closed (nodeSites scope next node) (nodeSites scope next node)
  | .enumeration _ members => .cons trivial (memberSites_closed next (next + 1) members)
  | .classDecl _ _ children => .cons trivial (sites_closed next (next + 1) children)
  | .binding decl => bindingSites_closed scope next decl
  | .function decl => functionSites_closed scope next decl
  | .root children => sites_closed scope next children
  | .ret _ => List.forall_mem_nil _

theorem sites_closed (scope next : Nat) : ∀ nodes : List Node,
    Closed (sites scope next nodes) (sites scope next nodes)
  | [] => List.forall_mem_nil _
  | node :: nodes => (nodeSites_closed scope next node).append (sites_closed scope _ nodes)

theorem bindingSites_closed (scope next : Nat) : ∀ decl : BindingDecl,
    Closed (bindingSites scope next decl) (bindingSites scope next decl)
  | ⟨_, _, _, _, getter⟩ => .cons List.infix_rfl (getterSites_closed scope (next + 1) getter)

theorem getterSites_closed (scope next : Nat) : ∀ getter : Option FunctionDecl,
    Closed (getterSites scope next getter) (getterSites scope next getter)
  | none => List.forall_mem_nil _
  | some decl => functionSites_closed scope next decl

theorem functionSites_closed (scope next : Nat) : ∀ decl : FunctionDecl,
    Closed (functionSites scope next decl) (functionSites scope next decl)
  | ⟨_, _, _, _, _, children⟩ => .cons List.infix_rfl (sites_closed next (next + 1) children)

end

theorem getter_mem_bindingSites {decl : BindingDecl} {getter : FunctionDecl}
    (written : decl.getter = some getter) : ⟨n + 1, scope, .function getter⟩ ∈ bindingSites scope n decl := by
  obtain ⟨_, _, _, _, _⟩ := decl
  obtain ⟨_, _, _, _, _, _⟩ := getter
  cases written
  rw [bindingSites, getterSites, functionSites]
  exact List.mem_cons_of_mem _ List.mem_cons_self

theorem binding_mem_sites {decl : BindingDecl} : ∀ {nodes : List Node} {next : Nat},
    .binding decl ∈ nodes → ∃ m, ⟨m, scope, .binding decl⟩ ∈ sites scope next nodes
  | node :: nodes, next, among => by
    rw [sites]
    rcases List.mem_cons.1 among with rfl | among
    · obtain ⟨_, _, _, _, _⟩ := decl
      exact ⟨next, List.mem_append_left _ List.mem_cons_self⟩
    · obtain ⟨m, listed⟩ := binding_mem_sites among
      exact ⟨m, List.mem_append_right _ listed⟩

theorem binding_mem_functionSites {decl : BindingDecl} {function : FunctionDecl}
    (among : .binding decl ∈ function.children) :
    ∃ m, ⟨m, n, .binding decl⟩ ∈ functionSites scope n function := by
  obtain ⟨_, _, _, _, _, _⟩ := function
  obtain ⟨m, listed⟩ := binding_mem_sites among
  exact ⟨m, List.mem_cons_of_mem _ listed⟩

-- The entries in a scope are those of the declarations in it.
theorem inside_sites {all : List Site} (nested : Nested t)
    (numbers : all.map Site.number = List.range' 1 (t.size - 1))
    (described : ∀ site ∈ all, DescribedAt t site) (p : Nat) :
    t.inside p = (all.filter fun site => site.scope = p).map Site.number := by
  have root : t.parent (.declared 0) = none := nested.root
  have order : List.range t.size = 0 :: all.map Site.number := by
    obtain ⟨others, count⟩ := Nat.exists_eq_succ_of_ne_zero (Nat.ne_of_gt t.rooted)
    have count : t.size = others + 1 := count
    rw [numbers, count, List.range_eq_range', List.range'_succ, Nat.add_sub_cancel]
  rw [inside, order, List.filter_cons, root]
  simp only [reduceCtorEq, decide_false, Bool.false_eq_true, if_false, List.filter_map]
  congr 1
  refine List.filter_congr fun site among => ?_
  obtain ⟨_, -, stands, -⟩ := described site among
  simp [stands]

-- The tree lists what the program declares.
structure Mirrors (root : Node) (t : Tree) : Prop where
  -- There is one entry for each declaration, in the order in which they are written,
  numbers : (nodeSites 0 1 root).map Site.number = List.range' 1 (t.size - 1)
  described : ∀ site ∈ nodeSites 0 1 root, DescribedAt t site
  -- and that is the order of the walk through the tree, too.
  preorder : t.preorder = List.range t.size
  -- The children of an entry are what is declared in it.  Only the root has others, the built-in types.
  children : ∀ p, t.children (.declared p) = (if p = 0 then Primitive.all.map Ref.primitive else []) ++
    ((nodeSites 0 1 root).filter fun site => site.scope = p).map fun site => .declared site.number
  -- The getter of a variable is the sibling behind it,
  getter : ∀ n scope decl getter, ⟨n, scope, .binding decl⟩ ∈ nodeSites 0 1 root →
    decl.getter = some getter → ⟨n + 1, scope, .function getter⟩ ∈ nodeSites 0 1 root ∧
    ∃ before after, t.children (.declared scope) = before ++ .declared n :: .declared (n + 1) :: after
  -- and the variables in the body of a function are its children.
  body : ∀ n scope function decl, ⟨n, scope, .function function⟩ ∈ nodeSites 0 1 root →
    .binding decl ∈ function.children → ∃ m, ⟨m, n, .binding decl⟩ ∈ nodeSites 0 1 root ∧
    .declared m ∈ t.children (.declared n)
  -- What is written at a place has one value there.
  value : ∀ n written e e', Lowers t n written e → Lowers t n written e' → e = e'

end Typing

open Typing

theorem typeProgram_mirrors {root : Node} {t : Tree} (typed : typeProgram root = .ok t) : Mirrors root t := by
  cases root with
  | root nodes =>
    have enters : Enters (.nodes nodes) 0 Tree.empty t := declareAll_enters nodes typed
    have within : 0 < Tree.empty.size := Tree.empty.rooted
    have nested := enters.nested within nested_empty
    have size : t.size = 1 + (sites 0 1 nodes).length := enters.size
    have numbers : (nodeSites 0 1 (.root nodes)).map Site.number = List.range' 1 (t.size - 1) := by
      rw [nodeSites, sites_numbers, size, Nat.add_sub_cancel_left]
    have described : ∀ site ∈ nodeSites 0 1 (.root nodes), DescribedAt t site :=
      enters.described within nested_empty
    have closed := nodeSites_closed 0 1 (.root nodes)
    refine ⟨numbers, described,
      (enters.depthFirst within nested_empty depthFirst_empty open_empty).1.preorder nested,
      fun p => ?_, fun n scope decl getter among written => ?_, fun n scope function decl among inside => ?_,
      fun _ _ _ _ => Lowers.unique⟩
    · rw [nested.children, inside_sites nested numbers described, List.map_map]
      rfl
    · have behind := (closed _ among).subset (getter_mem_bindingSites written)
      obtain ⟨_, -, first, -⟩ := described _ among
      obtain ⟨_, -, second, -⟩ := described _ behind
      exact ⟨behind, nested.siblings first second⟩
    · obtain ⟨m, listed⟩ := binding_mem_functionSites inside
      have listed := (closed _ among).subset listed
      obtain ⟨_, -, stands, -⟩ := described _ listed
      exact ⟨m, listed, nested.mem_children.2 stands⟩
  | _ => cases typed

-- A getter stands beside its variable, and has the variable in its body as a child.  A member of an enum has
-- no getter, whatever is written for it.
theorem getter_mirrored :
    let body : List Node := [.binding ⟨.var, "y", none, some (.literal (.integer 2)), none⟩,
      .ret (.grouping (.binary .add (.literal (.integer 1)) (.literal (.integer 2))))]
    let getter : FunctionDecl := ⟨false, "get_x", none, [], true, body⟩
    let root : Node := .root [.enumeration "E" [.binding ⟨.enumMember, "A", none, none, some getter⟩],
      .classDecl "C" none [.binding ⟨.var, "x", none, none, some getter⟩]]
    ∃ t, typeProgram root = .ok t ∧ t.size = 7 ∧ Mirrors root t ∧
      t.children (.declared 3) = [.declared 4, .declared 5] ∧ t.children (.declared 5) = [.declared 6] := by
  intro body getter root
  have size : (typeProgram root).toOption.map Tree.size = some 7 := by
    decide +kernel
  cases typed : typeProgram root with
  | error e => rw [typed] at size; cases size
  | ok t =>
    rw [typed] at size
    have mirrors := typeProgram_mirrors typed
    exact ⟨t, rfl, Option.some.inj size, mirrors, mirrors.children 3, mirrors.children 5⟩

end Frontend
