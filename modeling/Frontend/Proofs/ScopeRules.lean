import Frontend.Proofs.Resolution

-- The types in the scope tree of a program stand in the scopes around what refers to them, and were
-- declared before it.

namespace Frontend

open Scope (Draft Kind Ref Tree TypedExpr)
open Scope.Tree
open Surface (BindingDecl FunctionDecl Modifiers Node)

namespace Typing

open Grammar (Formed constructorDecl getterDecl memberDecl)

variable {task : Task} {scope n k : Nat} {t t' : Tree} {d : Draft} {f : Draft → Draft} {r x : Ref}

-- An enum is the nearest type of its name for what stands in it.
theorem findType_self {name : String} (nested : Nested t) (within : scope < t.size) :
    (t.push scope ⟨name, .enumeration, false⟩).findType (.declared t.size) name =
      some (.declared t.size) := by
  have nested' := nested.push (d := ⟨name, .enumeration, false⟩) within
  have stands : (t.push scope ⟨name, .enumeration, false⟩).parent (.declared t.size) =
      some (.declared scope) := Kept.refl.parent_pushed
  have empty : (t.push scope ⟨name, .enumeration, false⟩).children (.declared t.size) = [] := by
    have unknown : t.get? (.declared t.size) = none := by
      rw [← Option.not_isSome_iff_eq_none, get?_isSome]
      exact Nat.lt_irrefl _
    rw [children_push within, if_neg (Nat.ne_of_gt within), Tree.children, unknown]
    rfl
  have last : (t.push scope ⟨name, .enumeration, false⟩).findChild (Scope.Entry.isTypeNamed name)
      (.declared scope) = some (.declared t.size) := by
    have fits : ((t.push scope ⟨name, .enumeration, false⟩).get? (.declared t.size)).any
        (Scope.Entry.isTypeNamed name) = true := by
      rw [get?_push, if_pos rfl]
      simp [Scope.Entry.isTypeNamed, Kind.isType]
    rw [findChild, children_push within, if_pos rfl, List.reverse_append, List.reverse_singleton,
      List.singleton_append, List.find?_cons, fits]
  obtain ⟨others, scopes⟩ := scopes_self (t.push scope ⟨name, .enumeration, false⟩) (.declared scope)
  rw [findType, find, nested'.scopes_up stands, List.findSome?_cons, findChild, empty, List.reverse_nil,
    List.find?_nil, scopes, List.findSome?_cons, last]

-- The members are those of the enum that they are entered into.
def Task.Enumerates (t : Tree) (scope : Nat) : Task → Prop
  | .members _ written => ∃ name, t.findType (.declared scope) name = some (.declared scope) ∧
    ∀ node ∈ written, ∃ member value, node = .binding (memberDecl name member value)
  | _ => True

theorem Stands.members {name : String} {members : List Node} (stands : Stands (.enumeration name members)) :
    ∀ node ∈ members, ∃ member value, node = .binding (memberDecl name member value) := by
  rcases stands with ⟨place, formed⟩ | ⟨_, same⟩
  · cases formed with
    | enumeration formed => exact formed
  · cases same

def Settled (t : Tree) (site : Site) : Prop := ResolvedAt t site ∧ TypedAt t site.number

theorem Settled.stays {site : Site} (settled : Settled t site) (stays : Stays site.number t t')
    (same : t'.draft? site.number = t.draft? site.number) : Settled t' site := by
  obtain ⟨⟨d, is, stands, name, internal, resolved⟩, d', is', typed⟩ := settled
  exact ⟨⟨d, same.trans is, (stays.agree.parent _ (Nat.le_refl _)).trans stands, name, internal,
    stays.resolved resolved⟩, d', same.trans is', stays.typed typed⟩

theorem Settled.kept {site : Site} (settled : Settled t site) (kept : Kept t t') (nested : Nested t)
    (nested' : Nested t') : Settled t' site := by
  obtain ⟨⟨d, is, -⟩, -⟩ := id settled
  have small := draft?_lt is
  exact settled.stays (kept.stays nested nested' small) (kept.draft? _ small)

theorem Settled.modify {site : Site} (settled : Settled t site) (discreet : Discreet f) (nested : Nested t)
    (other : k < site.number) : Settled (t.modify k f) site := by
  obtain ⟨⟨d, is, -⟩, -⟩ := id settled
  refine settled.stays (discreet.stays nested (draft?_lt is) other) ?_
  rw [draft?_modify, if_neg (Nat.ne_of_gt other)]

def SettledFrom (start : Nat) (sites : List Site) (t : Tree) : Prop :=
  ∀ site ∈ sites, start ≤ site.number ∧ Settled t site

namespace SettledFrom

variable {start : Nat} {site : Site} {declared others : List Site}

theorem append (first : SettledFrom start declared t) (later : start ≤ t.size) (kept : Kept t t')
    (nested : Nested t) (nested' : Nested t') (second : SettledFrom t.size others t') :
    SettledFrom start (declared ++ others) t' := by
  intro site member
  rcases List.mem_append.1 member with earlier | after
  · obtain ⟨late, settled⟩ := first site earlier
    exact ⟨late, settled.kept kept nested nested'⟩
  · obtain ⟨late, settled⟩ := second site after
    exact ⟨Nat.le_trans later late, settled⟩

theorem cons (inner : SettledFrom (start + 1) others t) (number : site.number = start)
    (first : Settled t site) : SettledFrom start (site :: others) t := by
  refine List.forall_mem_cons.2 ⟨⟨Nat.le_of_eq number.symm, first⟩, fun site member => ?_⟩
  obtain ⟨late, settled⟩ := inner site member
  exact ⟨Nat.le_of_succ_le late, settled⟩

theorem modify (inner : SettledFrom (k + 1) declared t) (discreet : Discreet f) (nested : Nested t) :
    SettledFrom (k + 1) declared (t.modify k f) := by
  intro site member
  obtain ⟨late, settled⟩ := inner site member
  exact ⟨late, settled.modify discreet nested late⟩

end SettledFrom

-- An entry that needs nothing from its inside.
theorem Settled.pushed {declaration : Declaration} (kept : Kept (t.push scope d) t')
    (within : scope < t.size) (nested : Nested t) (nested' : Nested t') (name : d.name = declaration.name)
    (internal : d.internal = declaration.internal)
    (resolved : Resolved (t.push scope d) (.declared t.size) declaration d.kind)
    (typed : Typed (t.push scope d) t.size d.kind) : Settled t' ⟨t.size, scope, declaration⟩ := by
  have settled : Settled (t.push scope d) ⟨t.size, scope, declaration⟩ :=
    ⟨⟨d, Kept.refl.draft?_pushed, Kept.refl.parent_pushed, name, internal, resolved⟩,
      d, Kept.refl.draft?_pushed, typed⟩
  exact settled.kept kept (nested.push within) nested'

-- A variable has the type that is written for it, or that of its value or of one that its getter gives back.
theorem settled_binding {modifiers : Modifiers} {name : String} {ty init : Option Surface.Expr}
    {getter : Option FunctionDecl} {declared : Option Ref} {value : Option TypedExpr} {final : Ref}
    (within : scope < t.size) (nested : Nested t) (stays : Stays t.size (t.push scope d) t')
    (resolved : resolveAnnotation t (.declared scope) ty = .ok declared)
    (is : t'.draft? t.size = some ⟨name, .binding modifiers (some final) value, false⟩)
    (founded : declared = some final ∨ ty = none ∧ ((∃ e ∈ value, e.ty = final) ∨
      ∃ d, t'.draft? (t.size + 1) = some d ∧ ∃ e ∈ d.kind.returns, e.ty = final)) :
    Settled t' ⟨t.size, scope, .binding ⟨modifiers, name, ty, init, getter⟩⟩ := by
  have stands : t'.parent (.declared t.size) = some (.declared scope) :=
    (stays.agree.parent _ (Nat.le_refl _)).trans Kept.refl.parent_pushed
  refine ⟨⟨_, is, stands, rfl, rfl, rfl, ?_⟩, _, is, final, rfl, ?_⟩
  · rcases founded with same | ⟨rfl, -⟩
    · exact written_known stays (resolveAnnotation_means nested within resolved)
        fun r member => same.symm.trans member
    · exact nofun
  · rcases founded with same | ⟨-, ⟨e, own, same⟩ | given⟩
    · exact .inl (declared_named stays (resolveAnnotation_means nested within resolved) final same)
    · exact .inr (.inl ⟨e, by cases own; exact List.mem_singleton_self e, same⟩)
    · exact .inr (.inr given)

theorem resolveAnnotation_none {ty : Option Surface.Expr}
    (resolved : resolveAnnotation t x ty = .ok none) : ty = none := by
  cases ty with
  | none => rfl
  | some written =>
    obtain ⟨r, -, same⟩ := bind_eq_ok.1 resolved
    cases same

-- A variable with a getter and no type of its own has that of a value which the getter gives back.
theorem settled_accessor {modifiers : Modifiers} {name : String} {ty : Option Surface.Expr}
    {internal : Bool} {body : List Node} {declared : Option Ref} {final : Ref} (within : scope < t.size)
    (nested : Nested t) (resolved : resolveAnnotation t (.declared scope) ty = .ok declared)
    (inner : Enters (.function (getterDecl name ty internal body)) scope
      (t.push scope ⟨name, .binding modifiers declared none, false⟩) t')
    (operatorless : Operatorless t')
    (known : declared.or (returnType? t' (.declared (t.size + 1))) = some final) :
    Settled (t'.modify t.size (withType final)) ⟨t.size, scope,
      .binding ⟨modifiers, name, ty, none, some (getterDecl name ty internal body)⟩⟩ := by
  obtain ⟨-, d, is, -, given⟩ :=
    inner.function_entry (within_push within) (nested.push within) operatorless
  rw [size_push] at is given
  have nested' := inner.nested (within_push within) (nested.push within)
  refine settled_binding within nested
    (stays_entered within nested inner.kept nested' (withType_discreet final)) resolved
    inner.kept.draft?_entered ?_
  rcases Option.or_eq_some_iff.1 known with same | ⟨rfl, same⟩
  · exact .inl same
  · have unwritten := resolveAnnotation_none resolved
    refine .inr ⟨unwritten, .inr ⟨d, ?_, given unwritten final same⟩⟩
    rw [draft?_modify, if_neg (Nat.succ_ne_self _)]
    exact is

-- A member of an enum has the type of the enum, which is the one that is written for it.
theorem settled_member {enumName : String} {decl : BindingDecl} {value : Int64} (within : scope < t.size)
    (nested : Nested t) (written : decl.ty = some (.plain enumName))
    (found : t.findType (.declared scope) enumName = some (.declared scope))
    (kept : Kept (t.push scope (memberDraft (.declared scope) decl value)) t') (nested' : Nested t') :
    Settled t' ⟨t.size, scope, .member decl⟩ := by
  have near : (t.push scope (memberDraft (.declared scope) decl value)).Nearest (.declared t.size) enumName
      (.declared scope) := findType_nearest nested within found
  refine .pushed kept within nested nested' rfl rfl ⟨rfl, fun ty member => ?_⟩
    ⟨_, rfl, .inl ⟨enumName, near⟩⟩
  cases written.symm.trans member
  exact ⟨_, rfl, enumName, none, rfl, near⟩

theorem settled_plain {modifiers : Modifiers} {name : String} {ty init : Option Surface.Expr}
    {declared : Option Ref} {value : Option TypedExpr} {final : Ref} (within : scope < t.size) (nested : Nested t)
    (resolved : resolveAnnotation t (.declared scope) ty = .ok declared)
    (known : declared.or (value.map TypedExpr.ty) = some final) :
    Settled (t.push scope ⟨name, .binding modifiers (some final) value, false⟩)
      ⟨t.size, scope, .binding ⟨modifiers, name, ty, init, none⟩⟩ := by
  refine settled_binding within nested (.refl (nested.push within) (by simp)) resolved Kept.refl.draft?_pushed ?_
  rcases Option.or_eq_some_iff.1 known with same | ⟨rfl, same⟩
  · exact .inl same
  · exact .inr ⟨resolveAnnotation_none resolved, .inl (Option.map_eq_some_iff.1 same)⟩

-- An entry together with all that is entered behind it, into it or next to it.
theorem Enters.settled_around {target : Nat} {declaration : Declaration}
    (inner : Enters task target (t.push scope d) t') (inside : target < (t.push scope d).size)
    (within : scope < t.size) (nested : Nested t) (own : Nested t' → Settled t' ⟨t.size, scope, declaration⟩)
    (settled : SettledFrom (t.push scope d).size (task.sites target (t.push scope d).size) t') :
    SettledFrom t.size (⟨t.size, scope, declaration⟩ :: task.sites target (t.size + 1)) t' := by
  rw [size_push] at settled
  exact settled.cons rfl (own (inner.nested inside (nested.push within)))

-- The same where the entry is changed once more behind what is entered.
theorem Enters.settled_changed {target : Nat} {declaration : Declaration}
    (inner : Enters task target (t.push scope d) t') (inside : target < (t.push scope d).size)
    (within : scope < t.size) (nested : Nested t) (discreet : Discreet f)
    (own : Settled (t'.modify t.size f) ⟨t.size, scope, declaration⟩)
    (settled : SettledFrom (t.push scope d).size (task.sites target (t.push scope d).size) t') :
    SettledFrom t.size (⟨t.size, scope, declaration⟩ :: task.sites target (t.size + 1)) (t'.modify t.size f) := by
  rw [size_push] at settled
  exact (settled.modify discreet (inner.nested inside (nested.push within))).cons rfl own

-- Two tasks in one scope, one behind the other.
theorem Enters.settled_behind {first second : Task} {t₁ : Tree} (one : Enters first scope t t₁)
    (other : Enters second scope t₁ t') (within : scope < t.size) (nested : Nested t)
    (before : SettledFrom t.size (first.sites scope t.size) t₁)
    (after : SettledFrom t₁.size (second.sites scope t₁.size) t') :
    SettledFrom t.size (first.sites scope t.size ++
      second.sites scope (t.size + (first.sites scope t.size).length)) t' := by
  have nested₁ := one.nested within nested
  rw [← one.size]
  exact before.append one.kept.size other.kept nested₁
    (other.nested (Nat.lt_of_lt_of_le within one.kept.size) nested₁) after

theorem Enters.settled (enters : Enters task scope t t') (within : scope < t.size) (nested : Nested t)
    (operatorless : Operatorless t') (formed : FormedTask task) (enumerates : task.Enumerates t scope) :
    SettledFrom t.size (task.sites scope t.size) t' := by
  induction enters with
  | none | bodyEnd =>
    rw [Task.sites, sites]
    exact List.forall_mem_nil _
  | memberless =>
    rw [Task.sites, memberSites]
    exact List.forall_mem_nil _
  | more first others ih ih' | bodyBinding first others ih ih' =>
    obtain ⟨stands, formed⟩ := List.forall_mem_cons.1 formed
    have before := ih within nested (others.kept.operatorless operatorless) stands trivial
    have after := ih' (Nat.lt_of_lt_of_le within first.kept.size) (first.nested within nested) operatorless formed
      trivial
    rw [Task.sites, sites]
    exact first.settled_behind others within nested before after
  | enumeration inner ih =>
    rw [Task.sites, nodeSites]
    exact inner.settled_around (by simp) within nested
      (fun nested' => .pushed inner.kept within nested nested' rfl rfl trivial trivial)
      (ih (by simp) (nested.push within) operatorless trivial ⟨_, findType_self nested within, formed.members⟩)
  | classDecl inner ih =>
    rw [Task.sites, nodeSites]
    exact inner.settled_around (by simp) within nested
      (fun nested' => .pushed inner.kept within nested nested' rfl rfl rfl trivial)
      (ih (by simp) (nested.push within) operatorless formed.children trivial)
  | member _ inner ih =>
    obtain ⟨enumName, found, all⟩ := enumerates
    obtain ⟨⟨member, value', same⟩, others⟩ := List.forall_mem_cons.1 all
    cases same
    have inside := ih (within_push within) (nested.push within) operatorless trivial
      ⟨enumName, (findType_push nested within rfl (contains_declared.2 within) enumName).trans found, others⟩
    rw [Task.sites, memberSites]
    exact inner.settled_around (within_push within) within nested (settled_member within nested rfl found inner.kept)
      inside
  | plain resolved _ _ known =>
    rw [Task.sites, nodeSites, bindingSites, getterSites]
    exact SettledFrom.cons (List.forall_mem_nil _) rfl (settled_plain within nested resolved known)
  | accessor resolved typed _ inner known ih =>
    obtain ⟨rfl, internal, body, rfl, inBody⟩ := formed.getter
    have operatorless := (withType_mild _).operatorless.1 operatorless
    cases typed
    rw [Option.map_none, Option.or_none] at inner ih known
    rw [Task.sites, nodeSites, bindingSites, getterSites]
    exact inner.settled_changed (within_push within) within nested (withType_discreet _)
      (settled_accessor within nested resolved inner operatorless known)
      (ih (within_push within) (nested.push within) operatorless (.inr ⟨_, _, _, _, rfl, inBody⟩) trivial)
  | standing _ ih =>
    rw [Task.sites, nodeSites]
    exact ih within nested operatorless formed.function trivial
  | function resolved typed inner ih =>
    obtain ⟨resolvedAt, d, is, typedAt, -⟩ :=
      (Enters.function resolved typed inner).function_entry within nested operatorless
    have operatorless := (withResults_mild _ _).operatorless.1 operatorless
    rw [Task.sites, functionSites]
    exact inner.settled_changed (by simp) within nested (withResults_discreet _ _) ⟨resolvedAt, d, is, typedAt⟩
      (ih (by simp) (nested.push within) operatorless (formed_children formed) trivial)
  | bodyReturn _ _ _ ih =>
    have others := ih within nested operatorless (List.forall_mem_cons.1 formed).2 trivial
    simpa [Task.sites, sites, nodeSites] using others

-- The type that is written for a variable is the nearest one of its name.
theorem ResolvedAt.nearest {decl : BindingDecl} {name written : String}
    {generics : Option (List Surface.Expr)} {modifiers : Modifiers} {init : Option TypedExpr}
    (resolved : ResolvedAt t ⟨n, scope, .binding decl⟩) (type : decl.ty = some (.ident written generics))
    (is : t.draft? n = some ⟨name, .binding modifiers (some r) init, false⟩) :
    t.Nearest (.declared n) written r := by
  obtain ⟨d, is', -, -, -, resolved⟩ := resolved
  cases is.symm.trans is'
  obtain ⟨_, same, _, _, same', near⟩ := resolved.2 _ type
  cases same
  cases same'
  exact near

theorem memberSites_numbers (scope : Nat) : ∀ (next : Nat) (nodes : List Node),
    (memberSites scope next nodes).map Site.number = List.range' next (memberSites scope next nodes).length
  | _, [] => rfl
  | next, .binding _ :: others => by
    rw [memberSites, List.map_cons, memberSites_numbers scope (next + 1) others]
    rfl
  | next, .root _ :: others | next, .enumeration _ _ :: others | next, .classDecl _ _ _ :: others
  | next, .function _ :: others | next, .ret _ :: others => memberSites_numbers scope next others

mutual

theorem nodeSites_numbers (scope next : Nat) : ∀ node : Node,
    (nodeSites scope next node).map Site.number = List.range' next (nodeSites scope next node).length
  | .enumeration name members => by
    rw [nodeSites, List.map_cons, memberSites_numbers next (next + 1) members]
    rfl
  | .classDecl name generics children => by
    rw [nodeSites, List.map_cons, sites_numbers next (next + 1) children]
    rfl
  | .binding decl => bindingSites_numbers scope next decl
  | .function decl => functionSites_numbers scope next decl
  | .root children => sites_numbers scope next children
  | .ret _ => rfl

theorem sites_numbers (scope next : Nat) : ∀ nodes : List Node,
    (sites scope next nodes).map Site.number = List.range' next (sites scope next nodes).length
  | [] => rfl
  | node :: nodes => by
    rw [sites, List.map_append, nodeSites_numbers scope next node, sites_numbers scope _ nodes,
      List.length_append, List.range'_append_1]

theorem bindingSites_numbers (scope next : Nat) : ∀ decl : BindingDecl,
    (bindingSites scope next decl).map Site.number = List.range' next (bindingSites scope next decl).length
  | ⟨_, _, _, _, getter⟩ => by
    rw [bindingSites, List.map_cons, getterSites_numbers scope (next + 1) getter]
    rfl

theorem getterSites_numbers (scope next : Nat) : ∀ getter : Option FunctionDecl,
    (getterSites scope next getter).map Site.number = List.range' next (getterSites scope next getter).length
  | none => rfl
  | some decl => functionSites_numbers scope next decl

theorem functionSites_numbers (scope next : Nat) : ∀ decl : FunctionDecl,
    (functionSites scope next decl).map Site.number = List.range' next (functionSites scope next decl).length
  | ⟨_, _, _, _, _, children⟩ => by
    rw [functionSites, List.map_cons, sites_numbers next (next + 1) children]
    rfl

end

theorem Named.visible (nested : Nested t) (named : Named t n r) : t.Visible (.declared n) r := by
  obtain ⟨name, near⟩ := named
  exact (near.found nested).1

-- The root stands around everything else, and the built-in types were there before.
theorem visible_primitive {scope : Ref} (nested : Nested t) (stands : t.parent x = some scope)
    (p : Scope.Primitive) : t.Visible x (.primitive p) := by
  have last := (nested.climb_scopes scope).getLast? nested (nested.contains_parent stands)
  exact ⟨_, scope, Ref.root, rfl, rfl, stands, rfl, List.mem_of_getLast? last, trivial⟩

theorem wellTyped_types : ∀ {e : TypedExpr}, e.WellTyped → ∀ r ∈ e.types, ∃ p, r = Ref.primitive p
  | .literal _ _, wellTyped => List.forall_mem_singleton.2 ⟨_, wellTyped⟩
  | .binary _ _ _ _, ⟨left, right, _, _, _, integer⟩ =>
    List.forall_mem_cons.2 ⟨⟨_, integer⟩, fun r member =>
      (List.mem_append.1 member).elim (wellTyped_types left r) (wellTyped_types right r)⟩

theorem returns_subset_values {kind : Kind} : ∀ e ∈ kind.returns, e ∈ kind.values := by
  cases kind with
  | function _ _ _ _ _ => exact fun _ member => member
  | _ => exact List.forall_mem_nil _

theorem ty_mem_types (e : TypedExpr) : e.ty ∈ e.types := by
  cases e <;> exact List.mem_cons_self

-- The values of all the entries are right.
theorem Sound.values {outer : Option Ref} {kind : Kind} (sound : t.Sound outer kind) :
    ∀ e ∈ kind.values, e.WellTyped := by
  cases kind with
  | binding modifiers ty init => exact fun e member => sound.2.1 e (Option.mem_toList.1 member)
  | function static generics returnType parameters returns => exact fun e member => (sound e member).1
  | _ => exact List.forall_mem_nil _

-- All that the entry refers to is visible from it.
theorem Typed.visible {kind : Kind} {scope : Ref} (nested : Nested t)
    (stands : t.parent (.declared n) = some scope) (typed : Typed t n kind)
    (values : ∀ e ∈ kind.values, e.WellTyped)
    (behind : ∀ d, t.draft? (n + 1) = some d → ∀ e ∈ d.kind.values, e.WellTyped) :
    ∀ r ∈ kind.types, t.Visible (.declared n) r := by
  have builtIn {e : TypedExpr} (wellTyped : e.WellTyped) : ∀ r ∈ e.types, t.Visible (.declared n) r := by
    intro r member
    obtain ⟨p, rfl⟩ := wellTyped_types wellTyped r member
    exact visible_primitive nested stands p
  cases kind with
  | binding modifiers ty init =>
    obtain ⟨final, rfl, reason⟩ := typed
    refine List.forall_mem_cons.2 ⟨?_, fun r member => ?_⟩
    · rcases reason with named | ⟨e, own, rfl⟩ | ⟨d, is, e, given, rfl⟩
      · exact named.visible nested
      · exact builtIn (values e own) _ (ty_mem_types e)
      · exact builtIn (behind d is e (returns_subset_values e given)) _ (ty_mem_types e)
    · obtain ⟨e, own, member⟩ := List.mem_flatMap.1 member
      exact builtIn (values e own) r member
  | function static generics returnType parameters returns =>
    obtain ⟨returned, accepted⟩ := typed
    intro r member
    rcases List.mem_append.1 member with known | member
    · rcases returned r (Option.mem_toList.1 known) with named | ⟨e, given, rfl⟩
      · exact named.visible nested
      · exact builtIn (values e given) _ (ty_mem_types e)
    rcases List.mem_append.1 member with parameter | inner
    · obtain ⟨p, among, rfl⟩ := List.mem_map.1 parameter
      exact (accepted p among).visible nested
    · obtain ⟨e, given, member⟩ := List.mem_flatMap.1 inner
      exact builtIn (values e given) r member
  | _ => exact List.forall_mem_nil _

theorem visible_builtin {which : Scope.Builtin} (nested : Nested t) :
    ∀ r ∈ which.entry.kind.types, t.Visible (.builtin which) r := by
  cases which with
  | type primitive => exact List.forall_mem_nil _
  | integerAdd =>
    have integer : t.Visible (.builtin .integerAdd) Ref.integer := visible_primitive nested rfl .integer
    have all : ∀ r ∈ (Scope.Builtin.integerAdd.entry).kind.types, r = Ref.integer := by decide
    intro r member
    rw [all r member]
    exact integer

end Typing

open Typing

theorem compile_settled {source : String} {c : Compilation} (compiled : compile source = .ok c) :
    Nested c.meaning ∧
    (nodeSites 0 1 c.written).map Site.number = List.range' 1 (c.meaning.size - 1) ∧
    SettledFrom 1 (nodeSites 0 1 c.written) c.meaning := by
  obtain ⟨children, written, formed, enters⟩ := compile_enters compiled
  have rooted : 0 < Tree.empty.size := Tree.empty.rooted
  have size : c.meaning.size = 1 + (sites 0 1 children).length := enters.size
  have operatorless := enters.operatorless formed operatorless_empty
  rw [written, nodeSites, sites_numbers, size, Nat.add_sub_cancel_left]
  exact ⟨enters.nested rooted Tree.nested_empty, rfl,
    enters.settled rooted Tree.nested_empty operatorless formed trivial⟩

theorem compile_typed {source : String} {c : Compilation} (compiled : compile source = .ok c) {n : Nat}
    (positive : 0 < n) (small : n < c.meaning.size) : TypedAt c.meaning n := by
  obtain ⟨-, numbers, settled⟩ := compile_settled compiled
  have member : n ∈ (nodeSites 0 1 c.written).map Site.number := by
    rw [numbers, List.mem_range'_1]
    omega
  obtain ⟨site, among, rfl⟩ := List.mem_map.1 member
  exact (settled site among).2.2

-- The root says nothing, and all other entries are sound.
theorem compile_sound {source : String} {c : Compilation} (compiled : compile source = .ok c) :
    c.meaning.draft? 0 = some ⟨"", .root, false⟩ ∧
    ∀ n, 0 < n → n < c.meaning.size → SoundAt c.meaning n := by
  obtain ⟨children, -, formed, enters⟩ := compile_enters compiled
  have rooted : 0 < Tree.empty.size := Tree.empty.rooted
  have operatorless := enters.operatorless formed operatorless_empty
  exact ⟨enters.kept.draft? 0 rooted, enters.sound rooted operatorless rfl⟩

theorem compile_values {source : String} {c : Compilation} (compiled : compile source = .ok c) {n : Nat}
    {d : Draft} (stands : c.meaning.draft? n = some d) : ∀ e ∈ d.kind.values, e.WellTyped := by
  obtain ⟨root, sound⟩ := compile_sound compiled
  cases n with
  | zero =>
    rw [root] at stands
    cases stands
    exact List.forall_mem_nil _
  | succ n =>
    obtain ⟨p, d', -, -, is, sound⟩ := sound (n + 1) (Nat.succ_pos n) (draft?_lt stands)
    cases stands.symm.trans is
    exact Sound.values sound

theorem compile_visible {source : String} {c : Compilation} (compiled : compile source = .ok c) {n : Nat}
    {d : Draft} (stands : c.meaning.draft? n = some d) :
    ∀ r ∈ d.kind.types, c.meaning.Visible (.declared n) r := by
  obtain ⟨root, sound⟩ := compile_sound compiled
  cases n with
  | zero =>
    cases stands.symm.trans root
    exact List.forall_mem_nil _
  | succ n =>
    have small := draft?_lt stands
    obtain ⟨p, -, -, parent, -⟩ := sound (n + 1) (Nat.succ_pos n) small
    obtain ⟨d', is, typed⟩ := compile_typed compiled (Nat.succ_pos n) small
    cases stands.symm.trans is
    exact typed.visible (compile_settled compiled).1 parent (compile_values compiled stands)
      fun d behind => compile_values compiled behind

-- In the scope tree of a program, names mean what the scopes say.
--
-- All that an entry refers to is a type in one of the scopes around the entry, and was there before it.
-- Where the type was written, it is the last one of its name before the entry, in the nearest scope that has one.
-- There is one entry for each declaration, in the order in which they are written.
theorem compiled_names_resolved {source : String} {c : Compilation} (compiled : compile source = .ok c) :
    (∀ x e, c.meaning.get? x = some e → ∀ r ∈ e.kind.types, c.meaning.Visible x r) ∧
    (nodeSites 0 1 c.written).map Site.number = List.range' 1 (c.meaning.size - 1) ∧
    ∀ site ∈ nodeSites 0 1 c.written, ResolvedAt c.meaning site := by
  obtain ⟨nested, numbers, settled⟩ := compile_settled compiled
  refine ⟨fun x e found => ?_, numbers, fun site among => (settled site among).2.1⟩
  cases x with
  | builtin which =>
    cases found
    exact visible_builtin nested
  | declared n =>
    have is : c.meaning.draft? n = some e.toDraft := by rw [draft?, found]; rfl
    exact compile_visible compiled is

-- A class is nearer than the built-in type of its name, and a class inside of it is nearer still.
theorem shadowed_names_resolved :
    ∃ c, compile "class Integer { class Integer; var a: Integer; } var b: Integer; val c = 1;" = .ok c ∧
      (∀ x e, c.meaning.get? x = some e → ∀ r ∈ e.kind.types, c.meaning.Visible x r) ∧
      c.meaning.Nearest (.declared 3) "Integer" (.declared 2) ∧
      c.meaning.Nearest (.declared 4) "Integer" (.declared 1) := by
  let a : BindingDecl := ⟨.var, "a", some (.plain "Integer"), none, none⟩
  let b : BindingDecl := ⟨.var, "b", some (.plain "Integer"), none, none⟩
  let inner : Node := .classDecl "Integer" none []
  let c' : BindingDecl := ⟨.readOnly, "c", none, some (.literal (.integer 1)), none⟩
  have read : ((compile
        "class Integer { class Integer; var a: Integer; } var b: Integer; val c = 1;").toOption.map
      fun c => (c.written, c.meaning.draft? 3, c.meaning.draft? 4)) = some (.root
        [.classDecl "Integer" none [inner, .binding a], .binding b, .binding c'],
        some ⟨"a", .binding .var (some (.declared 2)) none, false⟩,
        some ⟨"b", .binding .var (some (.declared 1)) none, false⟩) := by
    decide +kernel
  cases compiled : compile "class Integer { class Integer; var a: Integer; } var b: Integer; val c = 1;" with
  | error e => rw [compiled] at read; cases read
  | ok c =>
    rw [compiled] at read
    have same := Option.some.inj read
    have written := congrArg Prod.fst same
    have isA := congrArg (fun all => all.2.1) same
    have isB := congrArg (fun all => all.2.2) same
    obtain ⟨visible, -, resolved⟩ := compiled_names_resolved compiled
    dsimp only at written isA isB
    rw [written] at resolved
    exact ⟨c, rfl, visible, (resolved ⟨3, 1, .binding a⟩ (.tail _ (.tail _ (.head _)))).nearest rfl isA,
      (resolved ⟨4, 0, .binding b⟩ (.tail _ (.tail _ (.tail _ (.head _))))).nearest rfl isB⟩

end Frontend
