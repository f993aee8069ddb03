import Frontend.Proofs.Structure

-- Which types an entry can refer to: those in the scopes around it that were added before it, and of several
-- with one name the last one in the nearest scope.  This is told by the finished tree alone, and agrees with
-- what was looked up when the entry was added.

namespace Frontend.Scope

-- Built-in entries were there before all others.
def Ref.Before : Ref → Ref → Prop
  | builtin _, _ => True
  | declared m, declared n => m < n
  | declared _, builtin _ => False

instance : DecidableRel Ref.Before
  | .builtin _, _ => isTrue trivial
  | .declared m, .declared n => inferInstanceAs (Decidable (m < n))
  | .declared _, .builtin _ => isFalse id

def TypedExpr.types : TypedExpr → List Ref
  | literal _ ty => [ty]
  | binary _ lhs rhs ty => ty :: (lhs.types ++ rhs.types)

-- All that an entry of the kind refers to.
def Kind.types : Kind → List Ref
  | binding _ ty init => ty.toList ++ init.toList.flatMap TypedExpr.types
  | function _ _ returnType parameters returns =>
    returnType.toList ++ (parameters.map Parameter.ty ++ returns.flatMap TypedExpr.types)
  | _ => []

namespace Tree

-- A type in one of the scopes around the entry `x`, added before `x`.
def Visible (t : Tree) (x r : Ref) : Prop :=
  ∃ e scope outer, t.get? r = some e ∧ e.kind.isType = true ∧ t.parent x = some scope ∧
    e.parent = some outer ∧ outer ∈ t.scopes scope ∧ r.Before x

def typesBefore (t : Tree) (x : Ref) (name : String) (scope : Ref) : List Ref :=
  (t.children scope).filter fun r => decide (r.Before x) && (t.get? r).any (Entry.isTypeNamed name)

-- The last type of the name before `x`, in the nearest scope around `x` that has one before `x`.
def Nearest (t : Tree) (x : Ref) (name : String) (r : Ref) : Prop :=
  ∃ start inner scope outer, t.parent x = some start ∧ t.scopes start = inner ++ scope :: outer ∧
    (∀ s ∈ inner, t.typesBefore x name s = []) ∧ (t.typesBefore x name scope).getLast? = some r

variable {t t' : Tree} {x r s scope : Ref} {name : String} {n p : Nat} {d : Draft}

theorem mem_typesBefore : r ∈ t.typesBefore x name s ↔
    r ∈ t.children s ∧ r.Before x ∧ (t.get? r).any (Entry.isTypeNamed name) = true := by
  simp [typesBefore]

theorem Nested.parent_of_child (nested : Nested t) (listed : r ∈ t.children s) : t.parent r = some s := by
  cases r with
  | declared m => exact nested.mem_children.1 listed
  | builtin which =>
    cases s with
    | builtin other =>
      have known : ∀ r ∈ other.entry.children, t.parent r = some (.builtin other) := by
        rcases other with ⟨_ | _ | _ | _⟩ | _ <;> (simp [Builtin.entry]; try rfl)
      exact known _ listed
    | declared p =>
      rw [nested.children, List.mem_append] at listed
      rcases listed with primitive | entry
      · split at primitive
        · next root =>
          obtain ⟨q, -, same⟩ := List.mem_map.1 primitive
          cases same
          rw [root]
          rfl
        · cases primitive
      · obtain ⟨m, -, same⟩ := List.mem_map.1 entry
        cases same

-- What is nearest is visible, and has the name.
theorem Nearest.found (nested : Nested t) (nearest : t.Nearest x name r) :
    t.Visible x r ∧ t.name r = name := by
  obtain ⟨start, inner, scope, outer, stands, scopes, -, last⟩ := nearest
  obtain ⟨listed, before, fits⟩ := mem_typesBefore.1 (List.mem_of_getLast? last)
  cases found : t.get? r with
  | none => rw [found] at fits; cases fits
  | some e =>
    rw [found, Option.any_some, Entry.isTypeNamed, Bool.and_eq_true, beq_iff_eq] at fits
    have inside := nested.parent_of_child listed
    rw [parent, found] at inside
    refine ⟨⟨e, start, scope, found, fits.1, stands, inside, ?_, before⟩, ?_⟩
    · rw [scopes]
      simp
    · rw [Tree.name, found, ← fits.2]
      rfl

-- One entry sees one nearest type of a name at most.
theorem Nearest.unique {r' : Ref} (left : t.Nearest x name r) (right : t.Nearest x name r') : r = r' := by
  obtain ⟨start, inner, scope, outer, stands, scopes, none, last⟩ := left
  obtain ⟨start', inner', scope', outer', stands', scopes', none', last'⟩ := right
  cases stands.symm.trans stands'
  -- Both are the answer of one search through the scopes.
  have search {inner : List Ref} {scope : Ref} (outer : List Ref) {r : Ref}
      (none : ∀ s ∈ inner, t.typesBefore x name s = [])
      (last : (t.typesBefore x name scope).getLast? = some r) :
      (inner ++ scope :: outer).findSome? (fun s => (t.typesBefore x name s).getLast?) = some r :=
    List.findSome?_eq_some_iff.2
      ⟨inner, scope, outer, rfl, last, fun s within => by rw [none s within, List.getLast?_nil]⟩
  have found := search outer none last
  rw [← scopes, scopes', search outer' none' last'] at found
  exact (Option.some.inj found).symm

theorem findType_nearest (nested : Nested t) (within : p < t.size)
    (found : t.findType (.declared p) name = some r) : (t.push p d).Nearest (.declared t.size) name r := by
  have known := contains_declared.2 within
  -- Before the new entry there is what there was.
  have before (s : Ref) : (t.push p d).typesBefore (.declared t.size) name s =
      (t.children s).filter fun r => (t.get? r).any (Entry.isTypeNamed name) := by
    have old : ∀ r ∈ t.children s, (decide (r.Before (.declared t.size)) &&
        ((t.push p d).get? r).any (Entry.isTypeNamed name)) = (t.get? r).any (Entry.isTypeNamed name) := by
      intro r listed
      have known := nested.contains_child listed
      have same := get?_push_known (p := p) (d := d) known
      have draft (e : Option Entry) : e.any (Entry.isTypeNamed name) =
          (e.map Entry.toDraft).any fun d => d.kind.isType && d.name == name := by
        cases e <;> rfl
      have early : r.Before (.declared t.size) := by
        cases r with
        | builtin which => trivial
        | declared m => exact contains_declared.1 known
      rw [draft, same, ← draft, decide_eq_true early, Bool.true_and]
    unfold typesBefore
    cases s with
    | builtin which => exact List.filter_congr old
    | declared q =>
      have last : ([.declared t.size] : List Ref).filter (fun r => decide (r.Before (.declared t.size)) &&
          ((t.push p d).get? r).any (Entry.isTypeNamed name)) = [] := by
        have late : ¬ (Ref.declared t.size).Before (.declared t.size) := Nat.lt_irrefl t.size
        rw [List.filter_cons_of_neg (by rw [decide_eq_false late]; simp), List.filter_nil]
      rw [children_push within, List.filter_append, List.filter_congr old]
      split
      · rw [last, List.append_nil]
      · rw [List.filter_nil, List.append_nil]
  obtain ⟨inner, scope, outer, scopes, here, others⟩ := List.findSome?_eq_some_iff.1 found
  have child (s : Ref) : t.findChild (Entry.isTypeNamed name) s =
      ((t.push p d).typesBefore (.declared t.size) name s).getLast? := by
    rw [before, findChild, ← List.head?_filter, List.filter_reverse, List.head?_reverse]
  refine ⟨.declared p, inner, scope, outer, ?_, ?_, fun s within => ?_, ?_⟩
  · rw [parent_push, if_pos rfl]
  · rw [scopes_push nested _ known, scopes]
  · have none := others s within
    rw [child] at none
    exact List.getLast?_eq_none_iff.1 none
  · rw [← child]
    exact here

-- The children of `q` that were there before `n`.
def childrenBefore (t : Tree) (n q : Nat) : List Ref :=
  (if q = 0 then Primitive.all.map Ref.primitive else []) ++
    ((List.range n).filter fun m => t.parent (.declared m) = some (.declared q)).map Ref.declared

theorem childrenBefore_before {q : Nat} : ∀ r ∈ t.childrenBefore n q, r.Before (.declared n) := by
  intro r listed
  rcases List.mem_append.1 listed with primitive | entry
  · split at primitive
    · obtain ⟨_, -, rfl⟩ := List.mem_map.1 primitive
      trivial
    · cases primitive
  · obtain ⟨m, within, rfl⟩ := List.mem_map.1 entry
    exact List.mem_range.1 (List.mem_filter.1 within).1

theorem inside_before (inside : n ≤ t.size) (q : Nat) : (t.inside q).filter (fun m => decide (m < n)) =
    (List.range n).filter fun m => t.parent (.declared m) = some (.declared q) := by
  obtain ⟨others, size⟩ := Nat.exists_eq_add_of_le inside
  have front : (List.range t.size).filter (fun m => decide (m < n)) = List.range n := by
    rw [size, List.range_add, List.filter_append,
      List.filter_eq_self.2 fun m listed => decide_eq_true (List.mem_range.1 listed),
      List.filter_eq_nil_iff.2 (by simp), List.append_nil]
  rw [Tree.inside, List.filter_comm, front]

theorem Nested.children_before (nested : Nested t) (inside : n ≤ t.size) (q : Nat) :
    (t.children (.declared q)).filter (fun r => decide (r.Before (.declared n))) = t.childrenBefore n q := by
  have primitives : ((if q = 0 then Primitive.all.map Ref.primitive else []) : List Ref).filter
      (fun r => decide (r.Before (.declared n))) =
      if q = 0 then Primitive.all.map Ref.primitive else [] := by
    split <;> rfl
  have entries : ((t.inside q).map Ref.declared).filter (fun r => decide (r.Before (.declared n))) =
      ((List.range n).filter fun m => t.parent (.declared m) = some (.declared q)).map Ref.declared := by
    rw [← inside_before inside q, List.filter_map]
    rfl
  rw [nested.children, List.filter_append, primitives, entries, childrenBefore]

theorem Nested.typesBefore (nested : Nested t) (inside : n ≤ t.size) (q : Nat) :
    t.typesBefore (.declared n) name (.declared q) =
      (t.childrenBefore n q).filter fun r => (t.get? r).any (Entry.isTypeNamed name) := by
  rw [← nested.children_before inside, List.filter_filter, Tree.typesBefore]
  simp only [Bool.and_comm]

-- What lookups of types see of an entry.
def label (d : Draft) : String × Bool := (d.name, d.kind.isType)

structure Agree (n : Nat) (t t' : Tree) : Prop where
  inside : n < t.size
  inside' : n < t'.size
  parent : ∀ m ≤ n, t'.parent (.declared m) = t.parent (.declared m)
  label : ∀ m < n, (t'.draft? m).map label = (t.draft? m).map label

theorem isTypeNamed_label (e : Option Entry) : e.any (Entry.isTypeNamed name) =
    ((e.map Entry.toDraft).map label).any fun known => known.2 && known.1 == name := by
  cases e <;> rfl

namespace Agree

variable (agree : Agree n t t') (nested : Nested t) (nested' : Nested t')

include agree nested nested'

omit nested' in
theorem scopes (m : Nat) (small : m ≤ n) : t'.scopes (.declared m) = t.scopes (.declared m) := by
  refine scopes_same (P := fun s => ∃ m ≤ n, s = .declared m) ?_ ?_ _ ⟨m, small, rfl⟩
  · rintro _ outer ⟨m, small, rfl⟩ stands
    obtain ⟨q, rfl⟩ := nested.parent_declared stands
    have earlier : q < m := nested.rank_lt stands
    exact ⟨q, Nat.le_trans (Nat.le_of_lt earlier) small, rfl⟩
  · rintro _ ⟨m, small, rfl⟩
    exact agree.parent m small

omit nested nested' in
theorem fits (before : r.Before (.declared n)) : (t'.get? r).any (Entry.isTypeNamed name) =
    (t.get? r).any (Entry.isTypeNamed name) := by
  cases r with
  | builtin which => rfl
  | declared m =>
    rw [isTypeNamed_label, isTypeNamed_label]
    exact congrArg _ (agree.label m before)

theorem typesBefore (s : Ref) :
    t'.typesBefore (.declared n) name s = t.typesBefore (.declared n) name s := by
  cases s with
  | builtin which =>
    refine List.filter_congr fun r listed => ?_
    by_cases before : r.Before (.declared n)
    · rw [agree.fits before]
    · rw [decide_eq_false before, Bool.false_and, Bool.false_and]
  | declared q =>
    have children : t'.childrenBefore n q = t.childrenBefore n q := by
      have numbers : ((List.range n).filter fun m => t'.parent (.declared m) = some (.declared q)) =
          (List.range n).filter fun m => t.parent (.declared m) = some (.declared q) := by
        refine List.filter_congr fun m listed => ?_
        rw [agree.parent m (Nat.le_of_lt (List.mem_range.1 listed))]
      rw [childrenBefore, childrenBefore, numbers]
    rw [nested'.typesBefore (Nat.le_of_lt agree.inside'), nested.typesBefore (Nat.le_of_lt agree.inside),
      children]
    exact List.filter_congr fun r listed => agree.fits (childrenBefore_before r listed)

theorem nearest (near : t.Nearest (.declared n) name r) : t'.Nearest (.declared n) name r := by
  obtain ⟨start, inner, scope, outer, stands, scopes, none, last⟩ := near
  obtain ⟨q, rfl⟩ := nested.parent_declared stands
  have earlier : q < n := nested.rank_lt stands
  refine ⟨.declared q, inner, scope, outer, (agree.parent n (Nat.le_refl n)).trans stands, ?_,
    fun s within => ?_, ?_⟩
  · rw [agree.scopes nested q (Nat.le_of_lt earlier), scopes]
  · rw [agree.typesBefore nested nested', none s within]
  · rw [agree.typesBefore nested nested', last]

end Agree

end Tree

end Frontend.Scope
