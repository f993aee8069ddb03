import Frontend.Scope.Tree

-- Comparing entries of two trees by what they say, and not by their numbers.  Two entries are similar if they
-- agree themselves and if everything they refer to is similar again.  Each pair of entries is examined once,
-- so that references in a circle do no harm.

namespace Frontend.Scope

abbrev RefPair := Ref × Ref

-- The pairs that have to be similar for all the elements of two lists to be, one by one.  There are
-- none if the lists differ in length or an element disagrees.
def pairsOfLists {α : Type} (pairs : α → α → Option (List RefPair)) :
    List α → List α → Option (List RefPair)
  | [], [] => some []
  | x :: xs, y :: ys => do
    let first ← pairs x y
    let others ← pairsOfLists pairs xs ys
    return first ++ others
  | _, _ => none

def pairsOfOptions {α : Type} (pairs : α → α → Option (List RefPair)) :
    Option α → Option α → Option (List RefPair)
  | none, none => some []
  | some x, some y => pairs x y
  | _, _ => none

def pairOfRefs (a b : Ref) : Option (List RefPair) := some [(a, b)]

-- The pairs of types in two expressions of the same shape with the same operators and values.
def TypedExpr.pairs : TypedExpr → TypedExpr → Option (List RefPair)
  | literal v t, literal w u => if v.equals w then some [(t, u)] else none
  | binary o a b t, binary p c d u =>
    if o = p then do
      let left ← pairs a c
      let right ← pairs b d
      return (t, u) :: left ++ right
    else none
  | _, _ => none

def Parameter.pairs (p q : Parameter) : Option (List RefPair) :=
  if p.modifiers = q.modifiers ∧ p.name = q.name then some [(p.ty, q.ty)] else none

-- The pairs of references in two kinds that agree otherwise.
def Kind.pairs : Kind → Kind → Option (List RefPair)
  | root, root => some []
  | enumeration, enumeration => some []
  | classDecl gs, classDecl hs => if gs = hs then some [] else none
  | binding m t e, binding n u f =>
    if m = n then do
      let types ← pairsOfOptions pairOfRefs t u
      let inits ← pairsOfOptions TypedExpr.pairs e f
      return types ++ inits
    else none
  | function s gs r ps xs, function t hs q qs ys =>
    if s = t ∧ gs = hs then do
      let results ← pairsOfOptions pairOfRefs r q
      let parameters ← pairsOfLists Parameter.pairs ps qs
      let returns ← pairsOfLists TypedExpr.pairs xs ys
      return results ++ parameters ++ returns
    else none
  | _, _ => none

namespace Tree

-- The pairs that have to be similar for `a` of `t` and `b` of `u` to be, or none if the two entries
-- disagree themselves.
def pairs (t u : Tree) (a b : Ref) : Option (List RefPair) := do
  let x ← t.get? a
  let y ← u.get? b
  if x.name = y.name ∧ x.internal = y.internal then
    let kinds ← x.kind.pairs y.kind
    let inner ← pairsOfLists pairOfRefs (t.visibleChildren a) (u.visibleChildren b)
    return kinds ++ inner
  else none

def refs (t : Tree) : List Ref :=
  (Primitive.all.map Ref.primitive ++ [.builtin .integerAdd])
    ++ (List.range t.size).map Ref.declared

def allPairs (t u : Tree) : List RefPair := t.refs.flatMap fun a => u.refs.map fun b => (a, b)

def unseen (t u : Tree) (seen : List RefPair) : List RefPair :=
  (t.allPairs u).filter fun p => !seen.contains p

theorem mem_refs_of_get? {t : Tree} {id : Ref} {e : Entry} (found : t.get? id = some e) :
    id ∈ t.refs := by
  cases id with
  | builtin b =>
    cases b with
    | type p => cases p <;> simp [refs, Primitive.all, Ref.primitive]
    | integerAdd => simp [refs]
  | declared n =>
    obtain ⟨inside, _⟩ := Array.getElem?_eq_some_iff.1 found
    simp [refs, size, inside]

theorem mem_allPairs_of_pairs {t u : Tree} {a b : Ref} {needed : List RefPair}
    (agree : t.pairs u a b = some needed) : (a, b) ∈ t.allPairs u := by
  unfold pairs at agree
  obtain ⟨x, foundA, rest⟩ := Option.bind_eq_some_iff.1 agree
  obtain ⟨y, foundB, _⟩ := Option.bind_eq_some_iff.1 rest
  simp only [allPairs, List.mem_flatMap, List.mem_map]
  exact ⟨a, mem_refs_of_get? foundA, b, mem_refs_of_get? foundB, rfl⟩

theorem filter_length_lt {α : Type} {p q : α → Bool} {x : α}
    (weaker : ∀ y, q y = true → p y = true) (passes : p x = true) (fails : q x = false)
    {xs : List α} (member : x ∈ xs) :
    (xs.filter q).length < (xs.filter p).length := by
  induction xs with
  | nil => cases member
  | cons y ys ih =>
    have tail : (ys.filter q).length ≤ (ys.filter p).length := by
      simpa only [List.countP_eq_length_filter] using List.countP_mono_left fun y _ => weaker y
    rcases List.mem_cons.1 member with rfl | inTail
    · simp only [List.filter_cons, passes, fails, if_true, List.length_cons]
      simpa using Nat.lt_succ_of_le tail
    · have := ih inTail
      by_cases hq : q y = true
      · simp only [List.filter_cons, hq, weaker y hq, if_true, List.length_cons]; omega
      · by_cases hp : p y = true <;> simp [hq, hp] <;> omega

theorem unseen_length_lt {t u : Tree} {seen : List RefPair} {p : RefPair}
    (member : p ∈ t.allPairs u) (fresh : ¬ seen.contains p = true) :
    (t.unseen u (p :: seen)).length < (t.unseen u seen).length := by
  refine filter_length_lt (x := p) ?_ ?_ ?_ member <;> simp_all

-- Whether all the pairs in `pending` are similar, where those in `seen` were examined already.  A
-- pair that was seen leaves fewer pending, and one that was not leaves fewer unseen.
def similarFrom (t u : Tree) (seen : List RefPair) : List RefPair → Bool
  | [] => true
  | (a, b) :: pending =>
    if _seen : seen.contains (a, b) then t.similarFrom u seen pending
    else
      match _agree : t.pairs u a b with
      | none => false
      | some needed => t.similarFrom u ((a, b) :: seen) (needed ++ pending)
termination_by pending => ((t.unseen u seen).length, pending.length)
decreasing_by
  · exact Prod.Lex.right _ (Nat.lt_succ_self _)
  · exact Prod.Lex.left _ _ (unseen_length_lt (mem_allPairs_of_pairs _agree) _seen)

def similar (t : Tree) (a : Ref) (u : Tree) (b : Ref) : Bool := t.similarFrom u [] [(a, b)]

end Tree

end Frontend.Scope
