import Frontend.Proofs.Bisimulation
import Frontend.Proofs.Resolution

-- Similarity is an equivalence of entries, as far as these can be compared with themselves.  A bisimulation
-- can be read backwards, and two of them can be put one behind the other.  An entry is similar to itself if
-- all that it leads to is in the tree and no number there is a NaN, which equals no number.

namespace Frontend

theorem Double.isNaN_of_isZero {d : Double} (zero : d.isZero = true) : d.isNaN = false := by
  have none : d.magnitude = 0 := by simpa [isZero] using zero
  simp [isNaN, none]

theorem Double.equals_iff {c d : Double} :
    c.equals d = true ↔ c.isNaN = false ∧ (c = d ∨ c.isZero = true ∧ d.isZero = true) := by
  cases c
  cases d
  simp [equals]

theorem Double.equals_symm {c d : Double} (equal : c.equals d = true) : d.equals c = true := by
  obtain ⟨number, rfl | ⟨zero, zero'⟩⟩ := equals_iff.1 equal
  · exact equal
  · exact equals_iff.2 ⟨isNaN_of_isZero zero', .inr ⟨zero', zero⟩⟩

theorem Double.equals_trans {b c d : Double} (equal : b.equals c = true) (equal' : c.equals d = true) :
    b.equals d = true := by
  obtain ⟨number, rfl | ⟨zero, zero'⟩⟩ := equals_iff.1 equal
  · exact equal'
  · obtain ⟨-, rfl | ⟨-, zero''⟩⟩ := equals_iff.1 equal'
    · exact equal
    · exact equals_iff.2 ⟨number, .inr ⟨zero, zero''⟩⟩

namespace Value

def isNaN : Value → Bool
  | double d => d.isNaN
  | _ => false

variable {v w x : Value}

theorem equals_self_iff : v.equals v = true ↔ v.isNaN = false := by
  cases v with
  | double d => simp [equals, isNaN, Double.equals_iff]
  | _ => simp [equals, isNaN]

theorem equals_symm (equal : v.equals w = true) : w.equals v = true := by
  cases v <;> cases w <;> try cases equal
  case double.double => exact Double.equals_symm equal
  all_goals exact beq_iff_eq.2 (beq_iff_eq.1 equal).symm

theorem equals_trans (equal : v.equals w = true) (equal' : w.equals x = true) : v.equals x = true := by
  cases v <;> cases w <;> (try cases equal) <;> cases x <;> try cases equal'
  case double.double.double => exact Double.equals_trans equal equal'
  all_goals exact beq_iff_eq.2 ((beq_iff_eq.1 equal).trans (beq_iff_eq.1 equal'))

end Value

namespace Scope

variable {R S : Ref → Ref → Prop}

theorem option_flip {α β : Type} {P : α → β → Prop} {Q : β → α → Prop} (turns : ∀ x y, P x y → Q y x)
    {a : Option α} {b : Option β} (related : Option.Rel P a b) : Option.Rel Q b a := by
  cases related with
  | none => exact .none
  | some one => exact .some (turns _ _ one)

theorem list_flip {α β : Type} {P : α → β → Prop} {Q : β → α → Prop} (turns : ∀ x y, P x y → Q y x)
    {as : List α} {bs : List β} (related : List.Forall₂ P as bs) : List.Forall₂ Q bs as :=
  .flip (related.imp turns)

theorem TypedExpr.Matches.flip {e f : TypedExpr} (same : e.Matches R f) : f.Matches (flip R) e := by
  induction same with
  | literal equal related => exact .literal (Value.equals_symm equal) related
  | binary related _ _ left right => exact .binary related left right

theorem Parameter.Matches.flip {p q : Parameter} (same : p.Matches R q) : q.Matches (flip R) p :=
  ⟨same.modifiers.symm, same.name.symm, same.ty⟩

theorem Kind.Matches.flip {k l : Kind} (same : k.Matches R l) : l.Matches (flip R) k := by
  cases same with
  | root => exact .root
  | enumeration => exact .enumeration
  | classDecl => exact .classDecl
  | binding types inits =>
    exact .binding (option_flip (fun _ _ => id) types) (option_flip (fun _ _ => TypedExpr.Matches.flip) inits)
  | function types parameters returns =>
    exact .function (option_flip (fun _ _ => id) types) (list_flip (fun _ _ => Parameter.Matches.flip) parameters)
      (list_flip (fun _ _ => TypedExpr.Matches.flip) returns)

theorem option_comp {α β γ : Type} {P : α → β → Prop} {Q : β → γ → Prop} {T : α → γ → Prop}
    (joins : ∀ x y z, P x y → Q y z → T x z) {a : Option α} {b : Option β} {c : Option γ}
    (first : Option.Rel P a b) (second : Option.Rel Q b c) : Option.Rel T a c := by
  cases first with
  | none => cases second; exact .none
  | some one =>
    cases second with
    | some other => exact .some (joins _ _ _ one other)

theorem list_comp {α β γ : Type} {P : α → β → Prop} {Q : β → γ → Prop} {T : α → γ → Prop}
    (joins : ∀ x y z, P x y → Q y z → T x z) {as : List α} {bs : List β} {cs : List γ}
    (first : List.Forall₂ P as bs) (second : List.Forall₂ Q bs cs) : List.Forall₂ T as cs := by
  induction first generalizing cs with
  | nil => cases second; exact .nil
  | cons one _ ih =>
    cases second with
    | cons other others => exact .cons (joins _ _ _ one other) (ih others)

theorem TypedExpr.Matches.comp {e f g : TypedExpr} (first : e.Matches R f) (second : f.Matches S g) :
    e.Matches (Relation.Comp R S) g := by
  induction first generalizing g with
  | literal equal related =>
    cases second with
    | literal equal' related' => exact .literal (Value.equals_trans equal equal') ⟨_, related, related'⟩
  | binary related _ _ left right =>
    cases second with
    | binary related' left' right' => exact .binary ⟨_, related, related'⟩ (left left') (right right')

theorem Parameter.Matches.comp {p q r : Parameter} (first : p.Matches R q) (second : q.Matches S r) :
    p.Matches (Relation.Comp R S) r :=
  ⟨first.modifiers.trans second.modifiers, first.name.trans second.name, _, first.ty, second.ty⟩

theorem Kind.Matches.comp {k l m : Kind} (first : k.Matches R l) (second : l.Matches S m) :
    k.Matches (Relation.Comp R S) m := by
  have types {a b c : Option Ref} (one : Option.Rel R a b) (other : Option.Rel S b c) :
      Option.Rel (Relation.Comp R S) a c :=
    option_comp (fun _ y _ related related' => ⟨y, related, related'⟩) one other
  cases first with
  | root => cases second; exact .root
  | enumeration => cases second; exact .enumeration
  | classDecl => cases second; exact .classDecl
  | binding known inits =>
    cases second with
    | binding known' inits' =>
      exact .binding (types known known') (option_comp (fun _ _ _ one other => one.comp other) inits inits')
  | function known parameters returns =>
    cases second with
    | function known' parameters' returns' =>
      exact .function (types known known')
        (list_comp (fun _ _ _ one other => one.comp other) parameters parameters')
        (list_comp (fun _ _ _ one other => one.comp other) returns returns')

def TypedExpr.hasNaN : TypedExpr → Bool
  | literal v _ => v.isNaN
  | binary _ lhs rhs _ => lhs.hasNaN || rhs.hasNaN

theorem TypedExpr.matches_self_iff {e : TypedExpr} :
    e.Matches R e ↔ (∀ r ∈ e.types, R r r) ∧ e.hasNaN = false := by
  induction e with
  | literal v ty =>
    rw [types, List.forall_mem_singleton, hasNaN, ← Value.equals_self_iff]
    constructor
    · rintro (⟨equal, related⟩)
      exact ⟨related, equal⟩
    · exact fun both => .literal both.2 both.1
  | binary op lhs rhs ty left right =>
    rw [types, List.forall_mem_cons, List.forall_mem_append, hasNaN, Bool.or_eq_false_iff]
    constructor
    · rintro (_ | ⟨related, one, other⟩)
      obtain ⟨before, number⟩ := left.1 one
      obtain ⟨behind, number'⟩ := right.1 other
      exact ⟨⟨related, before, behind⟩, number, number'⟩
    · rintro ⟨⟨related, before, behind⟩, number, number'⟩
      exact .binary related (left.2 ⟨before, number⟩) (right.2 ⟨behind, number'⟩)

theorem option_self {α : Type} {P : α → α → Prop} {a : Option α} :
    Option.Rel P a a ↔ ∀ x ∈ a.toList, P x x := by
  cases a <;> simp

-- Values compare with themselves if their types do and no number among them is a NaN.
theorem values_self_iff {values : List TypedExpr} : (∀ e ∈ values, e.Matches R e) ↔
    (∀ r ∈ values.flatMap TypedExpr.types, R r r) ∧ ∀ e ∈ values, e.hasNaN = false := by
  simp only [TypedExpr.matches_self_iff, List.forall_mem_flatMap, forall₂_and]

theorem Kind.matches_self_iff {kind : Kind} :
    kind.Matches R kind ↔ (∀ r ∈ kind.types, R r r) ∧ ∀ e ∈ kind.values, e.hasNaN = false := by
  cases kind with
  | root => exact ⟨fun _ => ⟨nofun, nofun⟩, fun _ => .root⟩
  | enumeration => exact ⟨fun _ => ⟨nofun, nofun⟩, fun _ => .enumeration⟩
  | classDecl generics => exact ⟨fun _ => ⟨nofun, nofun⟩, fun _ => .classDecl⟩
  | binding modifiers ty init =>
    have parts : (Kind.binding modifiers ty init).Matches R (.binding modifiers ty init) ↔
        (∀ r ∈ ty.toList, R r r) ∧ ∀ e ∈ init.toList, e.Matches R e := by
      rw [← option_self, ← option_self]
      exact ⟨fun | .binding types inits => ⟨types, inits⟩, fun both => .binding both.1 both.2⟩
    rw [parts, values_self_iff, types, values, List.forall_mem_append, and_assoc]
  | function static generics returnType parameters returns =>
    have parts : (Kind.function static generics returnType parameters returns).Matches R
          (.function static generics returnType parameters returns) ↔
        (∀ r ∈ returnType.toList, R r r) ∧ (∀ p ∈ parameters, R p.ty p.ty) ∧
          ∀ e ∈ returns, e.Matches R e := by
      rw [← option_self, ← List.forall₂_same]
      constructor
      · rintro (_ | _ | _ | _ | ⟨result, accepted, given⟩)
        exact ⟨result, fun p member => (List.forall₂_same.1 accepted p member).ty, given⟩
      · rintro ⟨result, accepted, given⟩
        exact .function result (List.forall₂_same.2 fun p member => ⟨rfl, rfl, accepted p member⟩) given
    have behind : (Kind.function static generics returnType parameters returns).values = returns := rfl
    rw [parts, values_self_iff, types, behind, List.forall_mem_append, List.forall_mem_append,
      List.forall_mem_map, and_assoc, and_assoc]

namespace Tree

variable {t u v : Tree} {a b c : Ref}

theorem Matches.flip (same : t.Matches u R a b) : u.Matches t (flip R) b a := by
  obtain ⟨x, y, here, there, name, internal, kind⟩ := same.entries
  exact ⟨⟨y, x, there, here, name.symm, internal.symm, kind.flip⟩, list_flip (fun _ _ => id) same.children⟩

theorem Matches.comp (first : t.Matches u R a b) (second : u.Matches v S b c) :
    t.Matches v (Relation.Comp R S) a c := by
  obtain ⟨x, y, here, between, name, internal, kind⟩ := first.entries
  obtain ⟨y', z, between', there, name', internal', kind'⟩ := second.entries
  cases between.symm.trans between'
  exact ⟨⟨x, z, here, there, name.trans name', internal.trans internal', kind.comp kind'⟩,
    list_comp (fun _ middle _ one other => ⟨middle, one, other⟩) first.children second.children⟩

theorem Bisimilar.symm (bisimilar : t.Bisimilar u a b) : u.Bisimilar t b a := by
  obtain ⟨R, bisimulation, related⟩ := bisimilar
  exact ⟨flip R, fun b a backwards => (bisimulation a b backwards).flip, related⟩

theorem Bisimilar.trans (first : t.Bisimilar u a b) (second : u.Bisimilar v b c) : t.Bisimilar v a c := by
  obtain ⟨R, bisimulation, related⟩ := first
  obtain ⟨S, bisimulation', related'⟩ := second
  refine ⟨Relation.Comp R S, ?_, b, related, related'⟩
  rintro a c ⟨b, one, other⟩
  exact (bisimulation a b one).comp (bisimulation' b c other)

-- The entry `a` contains `b` or refers to it.
inductive Mentions (t : Tree) (a b : Ref) : Prop where
  | child : b ∈ t.shownChildren a → Mentions t a b
  | type {e : Entry} : t.get? a = some e → b ∈ e.kind.types → Mentions t a b

-- The entry is one of the tree, and no number in it is a NaN.
def Numeric (t : Tree) (a : Ref) : Prop :=
  ∃ e, t.get? a = some e ∧ ∀ value ∈ e.kind.values, value.hasNaN = false

theorem matches_self_iff : t.Matches t R a a ↔ t.Numeric a ∧ ∀ b, t.Mentions a b → R b b := by
  constructor
  · intro same
    obtain ⟨e, e', here, here', -, -, kind⟩ := same.entries
    cases here.symm.trans here'
    obtain ⟨types, numbers⟩ := Kind.matches_self_iff.1 kind
    refine ⟨⟨e, here, numbers⟩, ?_⟩
    rintro b (⟨among⟩ | ⟨found, among⟩)
    · exact List.forall₂_same.1 same.children b among
    · cases here.symm.trans found
      exact types b among
  · rintro ⟨⟨e, here, numbers⟩, onward⟩
    exact ⟨⟨e, e, here, here, rfl, rfl, Kind.matches_self_iff.2 ⟨fun r among => onward r (.type here among), numbers⟩⟩,
      List.forall₂_same.2 fun b among => onward b (.child among)⟩

-- An entry is bisimilar to itself if the comparison meets no NaN and nothing that is not in the tree.
theorem bisimilar_self_iff :
    t.Bisimilar t a a ↔ ∀ b, Relation.ReflTransGen t.Mentions a b → t.Numeric b := by
  constructor
  · rintro ⟨R, bisimulation, related⟩ b path
    have reached : R b b := by
      induction path with
      | refl => exact related
      | tail _ step ih => exact (matches_self_iff.1 (bisimulation _ _ ih)).2 _ step
    exact (matches_self_iff.1 (bisimulation b b reached)).1
  · intro numeric
    refine ⟨fun x y => x = y ∧ Relation.ReflTransGen t.Mentions a x, ?_, rfl, .refl⟩
    rintro x _ ⟨rfl, path⟩
    exact matches_self_iff.2 ⟨numeric x path, fun y step => ⟨rfl, path.tail step⟩⟩

-- All that the entries of the tree refer to is in the tree.
def Whole (t : Tree) : Prop := ∀ x e, t.get? x = some e → ∀ r ∈ e.kind.types, t.contains r

-- No number in the tree is a NaN.
def NaNFree (t : Tree) : Prop := ∀ x e, t.get? x = some e → ∀ value ∈ e.kind.values, value.hasNaN = false

theorem contains_shown (among : b ∈ t.shownChildren a) : t.contains b := by
  have seen := (List.mem_filter.1 among).2
  cases found : t.get? b with
  | none => rw [found] at seen; cases seen
  | some e => rw [contains, found]; rfl

theorem Whole.bisimilar_self (whole : t.Whole) (numeric : t.NaNFree) (known : t.contains a) :
    t.Bisimilar t a a := by
  refine bisimilar_self_iff.2 fun b path => ?_
  have within : t.contains b := by
    induction path with
    | refl => exact known
    | tail _ step _ =>
      cases step with
      | child among => exact contains_shown among
      | type found among => exact whole _ _ found _ among
  obtain ⟨e, found⟩ := Option.isSome_iff_exists.1 within
  exact ⟨e, found, numeric b e found⟩

theorem similar_iff (a b : Ref) : t.similar a u b = true ↔ t.Bisimilar u a b := by
  rw [similar, similarFrom_eq_inOrder]
  exact similarInOrder_iff t u .asTheyCome a b

end Tree

end Scope

end Frontend
