import Frontend.Proofs.ExprAgreement

-- Declarations and programs are read alike from two sources that move in step.  Declarations stand outside of
-- all strings, so that braces are ordinary tokens here.

namespace Frontend.Grammar

open Surface TokenSource

variable {S T : Type}

-- Something was read on both sides, or it does not stand there on either.
def Optional {α : Type} (P P' : S → T → Prop) : Option α → Option α → S → T → Prop
  | none, none, s, t => P s t
  | some a, some b, s, t => a = b ∧ P' s t
  | _, _, _, _ => False

-- What is there leads on to one continuation, what is not to the other.
theorem Carries.choose {α β γ : Type} {F : Faults S T} {P P' : S → T → Prop}
    {R : β → γ → S → T → Prop} {r : Rule S (Option α)} {r' : Rule T (Option α)}
    {k : Option α → Rule S β} {k' : Option α → Rule T γ} (begins : Carries F P (Optional P P') r r')
    (absent : Carries F P R (k none) (k' none))
    (present : ∀ a, Carries F P' R (k (some a)) (k' (some a))) :
    Carries F P R (r >>= k) (r' >>= k') := by
  apply begins.bind
  intro a b
  cases a <;> cases b
  · exact absent
  · exact fun _ _ bad => bad.elim
  · exact fun _ _ bad => bad.elim
  · intro s t found
    obtain ⟨rfl, kept⟩ := found
    exact present _ s t kept

variable [TokenSource S] [TokenSource T]

-- Two sources that move in step outside of all strings, where they are read alike as types and as
-- expressions.
structure Ground (place : Span → Span → Prop) (F : Faults S T) (P : S → T → Prop) : Prop where
  lock : Lock place (· ≠ .stringText) F P P
  expr : Keeps F P expr expr
  type : Keeps F P typeExpr typeExpr

namespace Ground

variable {place : Span → Span → Prop} {F : Faults S T} {P : S → T → Prop}

theorem below (ground : Ground place F P) (s₀ : S) (t₀ : T) :
    Ground place F (Grammar.below P s₀ t₀) where
  lock := ground.lock.below s₀ t₀
  expr := ground.expr.below s₀ t₀
  type := ground.type.below s₀ t₀

theorem signedInteger (ground : Ground place F P) (negative : Bool) :
    Carries F P (same P) (signedInteger negative) (signedInteger negative) := by
  apply (ground.lock.expect (by decide)).bind
  intro x y s t found
  obtain ⟨alike, -, kept⟩ := found
  rw [← alike.value, ← alike.kind]
  rcases x.value with _ | (n | _ | _ | _)
  case some.integer => exact .ok ⟨rfl, kept⟩
  all_goals exact .failed (ground.lock.fault kept alike.span _ nofun)

theorem enumValue (ground : Ground place F P) : Carries F P (same P) enumValue enumValue := by
  apply (ground.lock.accept? (by decide)).bind
  intro a b
  cases a <;> cases b
  · exact ground.signedInteger false
  · exact fun _ _ bad => bad.elim
  · exact fun _ _ bad => bad.elim
  · exact (ground.signedInteger true).from fun _ _ taken => taken.2.2

theorem memberValue (ground : Ground place F P) {member member' : Token}
    (alike : Alike place member member') (next : Option Int64) :
    Carries F P (same P) (memberValue member next) (memberValue member' next) := by
  refine ground.lock.choice (by decide) ?_ fun _ _ _ => ground.enumValue
  cases next with
  | some value => exact Carries.give
  | none => exact fun _ _ kept => .failed (ground.lock.fault kept alike.span _ nofun)

theorem memberStep (ground : Ground place F P) (enumName : String) (s₀ : S) (t₀ : T)
    {k : Option Int64 → Rule S (List Node)} {k' : Option Int64 → Rule T (List Node)}
    (keeps : ∀ j, Keeps F (Grammar.below P s₀ t₀) (k j) (k' j)) (next : Option Int64) :
    Carries F (within P s₀ t₀) (same (within P s₀ t₀))
      (memberStep enumName k next) (memberStep enumName k' next) := by
  have later := ground.below s₀ t₀
  have first := ground.lock.restrict s₀ t₀
  refine first.choice (by decide) Carries.give ?_
  intro member member' alike
  apply (later.memberValue alike next).andThen
  intro value
  rw [← alike.text]
  refine later.lock.choice (by decide) ?_ fun _ _ _ => ?_
  · exact Carries.pure fun _ _ passed => ⟨rfl, below_within passed⟩
  · apply (keeps _).carries.andThen
    intro members
    exact Carries.pure fun _ _ passed => ⟨rfl, below_within passed⟩

theorem enumMembers (ground : Ground place F P) (enumName : String) (next : Option Int64) :
    Keeps F P (enumMembers enumName next) (enumMembers enumName next) :=
  keeps_recurse (P := fun _ : Unit => P)
    (fun s₀ t₀ _ _ keeps _ next => ground.memberStep enumName s₀ t₀ (keeps ()) next) () next

-- The first token of a declaration may lead from `P` to another relation.

section Starts

variable {P' : S → T → Prop} (first : Lock place (· ≠ .stringText) F P P')
  (later : Ground place F P')

include first

theorem bindingKeyword : Carries F P (same P') bindingKeyword bindingKeyword := by
  apply (first.expectAny (by decide)).bind
  intro x y s t found
  obtain ⟨alike, -, passed⟩ := found
  rw [← alike.kind]
  exact .ok ⟨rfl, passed⟩

include later

theorem parameterFrom : Carries F P (same P') parameter parameter := by
  apply (bindingKeyword first).andThen
  intro modifiers
  apply (later.lock.identifier (by decide)).andThen
  intro name
  apply (later.lock.expect (by decide)).bind
  intro _ _
  refine Carries.from ?_ fun _ _ taken => taken.2.2
  exact later.type.carries.andThen fun ty => Carries.give

theorem enum? : Carries F P (Optional P P') enum? enum? := by
  refine first.choice (by decide) (Carries.pure fun _ _ kept => kept) ?_
  intro _ _ _
  apply (later.lock.identifier (by decide)).andThen
  intro name
  apply (later.lock.expect (by decide)).bind
  intro _ _
  refine Carries.from ?_ fun _ _ taken => taken.2.2
  apply (later.enumMembers name _).carries.andThen
  intro members
  apply (later.lock.expect (by decide)).bind
  intro _ _
  exact Carries.pure fun _ _ taken => ⟨rfl, taken.2.2⟩

theorem return? : Carries F P (Optional P P') return? return? := by
  refine first.choice (by decide) (Carries.pure fun _ _ kept => kept) ?_
  intro _ _ _
  apply later.expr.carries.andThen
  intro value
  apply (later.lock.expect (by decide)).bind
  intro _ _
  exact Carries.pure fun _ _ taken => ⟨rfl, taken.2.2⟩

end Starts

theorem name (ground : Ground place F P) : Keeps F P identifier identifier :=
  keeps_of_within fun s₀ t₀ => ((ground.lock.restrict s₀ t₀).identifier (by decide)).mono
    fun _ _ _ _ good => ⟨good.1, below_within good.2⟩

theorem parameter (ground : Ground place F P) : Keeps F P parameter parameter :=
  keeps_of_within fun s₀ t₀ =>
    (parameterFrom (ground.lock.restrict s₀ t₀) (ground.below s₀ t₀)).mono
      fun _ _ _ _ good => ⟨good.1, below_within good.2⟩

theorem genericNames? (ground : Ground place F P) :
    Carries F P (same P) genericNames? genericNames? := by
  refine ground.lock.choice (by decide) Carries.give ?_
  intro _ _ _
  apply ground.name.carries.andThen
  intro first
  apply (ground.lock.afterCommas (by decide) ground.name).carries.andThen
  intro others
  apply (ground.lock.expect (by decide)).bind
  intro _ _
  exact Carries.pure fun _ _ taken => ⟨rfl, taken.2.2⟩

theorem constructor? (ground : Ground place F P) :
    Carries F P (same P) constructor? constructor? := by
  refine ground.lock.choice (by decide) Carries.give ?_
  intro _ _ _
  apply (ground.lock.itemsUntil (by decide) _ ground.parameter).carries.andThen
  intro params
  apply (ground.lock.expect (by decide)).bind
  intro _ _
  exact Carries.pure fun _ _ taken => ⟨rfl, taken.2.2⟩

theorem annotation? (ground : Ground place F P) :
    Carries F P (same P) annotation? annotation? := by
  refine ground.lock.choice (by decide) Carries.give ?_
  intro _ _ _
  exact ground.type.carries.andThen fun ty => Carries.give

-- Declarations with declarations in them: these are read by `b` and `b'`.

section Bodies

variable {b : Rule S (List Node)} {b' : Rule T (List Node)}

theorem getterBody (ground : Ground place F P) (body : Carries F P (same P) b b') :
    Carries F P (same P) (getterBody b) (getterBody b') := by
  refine ground.lock.choice (by decide) ?_ fun _ _ _ => ?_
  · apply (ground.lock.expect (by decide)).bind
    intro _ _
    refine Carries.from ?_ fun _ _ taken => taken.2.2
    apply body.andThen
    intro children
    apply (ground.lock.expect (by decide)).bind
    intro _ _
    exact Carries.pure fun _ _ taken => ⟨rfl, taken.2.2⟩
  · apply ground.expr.carries.andThen
    intro value
    apply (ground.lock.expect (by decide)).bind
    intro _ _
    exact Carries.pure fun _ _ taken => ⟨rfl, taken.2.2⟩

theorem bindingRest (ground : Ground place F P) (body : Carries F P (same P) b b') {name name' : Token}
    (alike : Alike place name name') (ty : Option Expr) :
    Carries F P (same P) (bindingRest name ty b) (bindingRest name' ty b') := by
  unfold Grammar.bindingRest
  rw [← alike.text]
  refine ground.lock.choice (by decide) ?_ fun _ _ _ => ?_
  · refine ground.lock.choice (by decide) ?_ fun _ _ _ => ?_
    · dsimp only
      split
      · apply (ground.lock.expect (by decide)).bind
        intro _ _
        exact Carries.pure fun _ _ taken => ⟨rfl, taken.2.2⟩
      · exact fun _ _ kept => .failed (ground.lock.fault kept alike.span _ nofun)
    · exact (ground.getterBody body).andThen fun read => Carries.give
  · apply ground.expr.carries.andThen
    intro value
    apply (ground.lock.expect (by decide)).bind
    intro _ _
    exact Carries.pure fun _ _ taken => ⟨rfl, taken.2.2⟩

variable {P' : S → T → Prop} (first : Lock place (· ≠ .stringText) F P P')
  (later : Ground place F P')

include first later

theorem class? (body : Carries F P' (same P') b b') :
    Carries F P (Optional P P') (class? b) (class? b') := by
  refine first.choice (by decide) (Carries.pure fun _ _ kept => kept) ?_
  intro _ _ _
  apply (later.lock.identifier (by decide)).andThen
  intro name
  apply later.genericNames?.andThen
  intro generics
  apply later.constructor?.andThen
  intro constructor
  apply (later.lock.expectAny (by decide)).bind
  intro x y s t found
  obtain ⟨alike, -, passed⟩ := found
  rw [← alike.kind]
  split
  · refine Carries.andThen body (fun children => ?_) s t passed
    apply (later.lock.expect (by decide)).bind
    intro _ _
    exact Carries.pure fun _ _ taken => ⟨rfl, taken.2.2⟩
  · exact .ok ⟨rfl, passed⟩

theorem binding? (body : Carries F P' (same P') b b') :
    Carries F P (Optional P P') (binding? b) (binding? b') := by
  apply first.currentKind.bind
  intro a a' s t found
  obtain ⟨rfl, _, _, -, ahead, -⟩ := found
  split
  · refine Carries.andThen (bindingKeyword first) (fun modifiers => ?_) s t ahead.1
    apply (later.lock.expect (by decide)).bind
    intro name name' u v found
    obtain ⟨alike, -, kept⟩ := found
    refine Carries.andThen later.annotation? (fun ty => ?_) u v kept
    rw [← alike.text]
    exact (later.bindingRest body alike ty).andThen fun read => Carries.pure fun _ _ kept => ⟨rfl, kept⟩
  · exact .ok ahead.1

theorem declaration? {b : Place → Rule S (List Node)} {b' : Place → Rule T (List Node)}
    (body : ∀ place, Carries F P' (same P') (b place) (b' place)) (place : Place) :
    Carries F P (Optional P P') (declaration? b place) (declaration? b' place) := by
  cases place with
  | scope =>
    refine (enum? first later).choose ?_ fun node => Carries.pure fun _ _ kept => ⟨rfl, kept⟩
    refine (class? first later (body _)).choose ?_ fun node => Carries.pure fun _ _ kept => ⟨rfl, kept⟩
    exact binding? first later (body _)
  | getter =>
    refine (binding? first later (body _)).choose ?_ fun node => Carries.pure fun _ _ kept => ⟨rfl, kept⟩
    exact return? first later

end Bodies

theorem declarationStep (ground : Ground place F P) (s₀ : S) (t₀ : T)
    {k : Place → Rule S (List Node)} {k' : Place → Rule T (List Node)}
    (keeps : ∀ j, Keeps F (Grammar.below P s₀ t₀) (k j) (k' j)) (place : Place) :
    Carries F (within P s₀ t₀) (same (within P s₀ t₀))
      (declarationStep k place) (declarationStep k' place) := by
  refine (declaration? (ground.lock.restrict s₀ t₀) (ground.below s₀ t₀)
    (fun place => (keeps place).carries) place).choose Carries.give fun node => ?_
  apply (keeps place).carries.andThen
  intro nodes
  exact Carries.pure fun _ _ passed => ⟨rfl, below_within passed⟩

theorem declarations (ground : Ground place F P) (place : Place) :
    Keeps F P (declarations place) (declarations place) :=
  keeps_recurse (P := fun _ : Unit => P)
    (fun s₀ t₀ _ _ keeps _ place => ground.declarationStep s₀ t₀ (keeps ()) place) () place

theorem program (ground : Ground place F P) : Carries F P (same P) program program := by
  apply (ground.declarations .scope).carries.andThen
  intro children
  exact (ground.lock.expectEnd _).andThen fun _ => Carries.give

end Ground

end Frontend.Grammar
