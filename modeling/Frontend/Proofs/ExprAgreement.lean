import Frontend.Proofs.Weave

-- Expressions are read alike from two sources that move in step through strings and segments.

namespace Frontend.Grammar

open Surface TokenSource

variable {S T : Type} [TokenSource S] [TokenSource T] {place : Span → Span → Prop} {F : Faults S T}
  {P opening closing : Nat → S → T → Prop} {x : Rule S Expr} {x' : Rule T Expr}

namespace Weave

theorem stringStep (weave : Weave place F P P opening closing)
    (keeps : ∀ depth, Keeps F (P depth) x x') (s₀ : S) (t₀ : T)
    {k : Unit → Rule S (List Expr × Bool)} {k' : Unit → Rule T (List Expr × Bool)}
    (goesOn : ∀ depth j, Keeps F (Grammar.below (P depth) s₀ t₀) (k j) (k' j)) (depth : Nat) :
    Carries F (within (P depth) s₀ t₀) (same (within (P depth) s₀ t₀))
      (stringStep x k ()) (stringStep x' k' ()) := by
  have later := weave.below s₀ t₀
  apply ((weave.restrict s₀ t₀).stringText later depth).bind
  intro a b s t found
  obtain ⟨rfl, passed⟩ := found
  obtain ⟨text, ends⟩ := a
  cases ends with
  | true => exact .ok ⟨rfl, below_within passed⟩
  | false =>
    refine Carries.andThen ((keeps (depth + 1)).below s₀ t₀).carries (fun e => ?_) s t passed
    apply (later.leaveSegment depth).andThen
    intro _
    apply (goesOn depth ()).carries.andThen
    intro parts
    exact Carries.pure fun _ _ passed => ⟨rfl, below_within passed⟩

theorem stringParts (weave : Weave place F P P opening closing)
    (keeps : ∀ depth, Keeps F (P depth) x x') (depth : Nat) :
    Keeps F (P depth) (stringParts x) (stringParts x') :=
  keeps_recurse (fun s₀ t₀ _ _ goesOn depth _ => weave.stringStep keeps s₀ t₀ goesOn depth) depth ()

theorem stringExpr (weave : Weave place F P P opening closing)
    (keeps : ∀ depth, Keeps F (P depth) x x') (depth : Nat) :
    Keeps F (P depth) (stringExpr x) (stringExpr x') := by
  apply keeps_of_within
  intro s₀ t₀
  apply ((weave.stringParts keeps depth).within s₀ t₀).andThen
  intro parts
  obtain ⟨parts, segmented⟩ := parts
  cases segmented <;> exact Carries.give

theorem primaryAfter (weave : Weave place F P P opening closing)
    (keeps : ∀ depth, Keeps F (P depth) x x') (depth : Nat) {a b : Token} (alike : Alike place a b)
    {s : S} {t : T} (landed : Lands P opening closing depth a.kind s t)
    (fault : ∀ e, e ≠ .unexpectedEnd → F.both (.grammatical ⟨a.span, e⟩) (.grammatical ⟨b.span, e⟩) s t)
    (named : a.kind = .identifier → BehindName s) :
    Agree F (same (P depth)) (primaryAfter x a F.eof s) (primaryAfter x' b F.eof' t) := by
  obtain ⟨kind, text, value, span⟩ := a
  obtain ⟨kind', text', value', span'⟩ := b
  obtain ⟨rfl, rfl, rfl, near⟩ := alike
  have landed : Lands P opening closing depth kind s t := landed
  have lock := weave.ordinary depth
  have items (close : TokenKind) := (lock.itemsUntil (by decide) close (keeps depth)).carries
  unfold Grammar.primaryAfter
  cases kind with
  | trueKeyword | falseKeyword | integer | double =>
    rw [lands_ordinary (by decide)] at landed
    cases value with
    | some value => exact .ok ⟨rfl, landed⟩
    | none => exact .failed (fault _ nofun)
  | identifier =>
    rw [lands_ordinary (by decide)] at landed
    exact (weave.generics landed (named rfl)).bind fun _ _ =>
      Carries.pure fun _ _ good => ⟨congrArg _ good.1, good.2.1⟩
  | leftParen =>
    rw [lands_ordinary (by decide)] at landed
    refine Carries.andThen (keeps depth).carries (fun inner => ?_) s t landed
    exact (lock.expect (by decide)).bind fun _ _ => Carries.pure fun _ _ closed => ⟨rfl, closed.2.2⟩
  | leftBracket =>
    rw [lands_ordinary (by decide)] at landed
    refine Carries.andThen (items .rightBracket) (fun inner => ?_) s t landed
    exact (lock.expect (by decide)).bind fun _ _ => Carries.pure fun _ _ closed => ⟨rfl, closed.2.2⟩
  | stringBegin =>
    rw [lands_ordinary (by decide)] at landed
    exact (weave.stringExpr keeps depth).carries s t landed
  | _ => exact .failed (fault _ nofun)

theorem suffixStep (weave : Weave place F P P opening closing)
    (keeps : ∀ depth, Keeps F (P depth) x x') (s₀ : S) (t₀ : T) {k : Expr → Rule S Expr}
    {k' : Expr → Rule T Expr} (goesOn : ∀ depth j, Keeps F (Grammar.below (P depth) s₀ t₀) (k j) (k' j))
    (depth : Nat) (e : Expr) :
    Carries F (within (P depth) s₀ t₀) (same (within (P depth) s₀ t₀))
      (suffixStep x k e) (suffixStep x' k' e) := by
  have first := (weave.restrict s₀ t₀).ordinary depth
  have later := (weave.below s₀ t₀).ordinary depth
  have items (close : TokenKind) :=
    (later.itemsUntil (by decide) close ((keeps depth).below s₀ t₀)).carries
  have rest (e : Expr) : Carries F (Grammar.below (P depth) s₀ t₀) (same (within (P depth) s₀ t₀))
      (k e) (k' e) :=
    (goesOn depth e).carries.mono fun _ _ _ _ good => ⟨good.1, below_within good.2⟩
  apply first.currentKind.bind
  intro a b s t found
  obtain ⟨rfl, seen⟩ := found
  split
  · refine Carries.bind (first.advance_kind (by decide)) (fun _ _ => ?_) s t seen
    refine Carries.from ?_ fun _ _ taken => taken.2.2
    exact (later.identifier (by decide)).andThen fun name => rest _
  · refine Carries.bind (first.advance_kind (by decide)) (fun _ _ => ?_) s t seen
    refine Carries.from ?_ fun _ _ taken => taken.2.2
    apply (items .rightParen).andThen
    intro args
    exact (later.expect (by decide)).bind fun _ _ => (rest _).from fun _ _ closed => closed.2.2
  · refine Carries.bind (first.advance_kind (by decide)) (fun _ _ => ?_) s t seen
    refine Carries.from ?_ fun _ _ taken => taken.2.2
    apply (items .rightBracket).andThen
    intro args
    exact (later.expect (by decide)).bind fun _ _ => (rest _).from fun _ _ closed => closed.2.2
  · obtain ⟨_, _, _, ahead, _⟩ := seen
    exact .ok ⟨rfl, ahead.1⟩

theorem suffixes (weave : Weave place F P P opening closing)
    (keeps : ∀ depth, Keeps F (P depth) x x') (depth : Nat) (e : Expr) :
    Keeps F (P depth) (suffixes x e) (suffixes x' e) :=
  keeps_recurse (fun s₀ t₀ _ _ goesOn depth e => weave.suffixStep keeps s₀ t₀ goesOn depth e) depth e

-- From here on a rule takes a token before it uses `x`, which may therefore be the rule itself.

section Operands

variable (weave : Weave place F P P opening closing) {s₀ : S} {t₀ : T}
  (keeps : ∀ depth, Keeps F (Grammar.below (P depth) s₀ t₀) x x') (depth : Nat)

include weave keeps

theorem primary : Carries F (within (P depth) s₀ t₀) (same (Grammar.below (P depth) s₀ t₀))
    (primary x) (primary x') :=
  ((weave.restrict s₀ t₀).advance depth).bind fun _ _ _ _ taken =>
    (weave.below s₀ t₀).primaryAfter keeps depth taken.1 taken.2.1 taken.2.2.1 taken.2.2.2

theorem postfixed : Carries F (within (P depth) s₀ t₀) (same (Grammar.below (P depth) s₀ t₀))
    (postfixed x) (postfixed x') :=
  (weave.primary keeps depth).andThen fun e =>
    ((weave.below s₀ t₀).suffixes keeps depth e).carries

theorem rangeExpr : Carries F (within (P depth) s₀ t₀) (same (Grammar.below (P depth) s₀ t₀))
    (rangeExpr x) (rangeExpr x') := by
  apply (weave.postfixed keeps depth).andThen
  intro first
  refine ((weave.below s₀ t₀).ordinary depth).choice (by decide) Carries.give ?_
  intro _ _ _
  exact ((weave.postfixed keeps depth).from fun _ _ => below_within).andThen fun last =>
    Carries.give

theorem prefixStep : StepsAgree F (fun depth => within (P depth) s₀ t₀)
    (fun depth _ _ => same (Grammar.below (P depth) s₀ t₀)) (prefixStep x) (prefixStep x') := by
  intro s t k k' goesOn depth _ start
  have lock := (weave.restrict s t).ordinary depth
  have operand (op : UnaryOperator) : Carries F (Grammar.below (P depth) s t)
      (same (Grammar.below (P depth) s₀ t₀)) (do return Expr.unary op (← k ()))
      (do return Expr.unary op (← k' ())) :=
    Carries.andThen (fun u v passed => goesOn depth () u v
      ⟨(below_within passed).trans start, passed.2⟩) fun _ => Carries.give
  refine lock.choice (by decide) ?_ (fun _ _ _ => operand .not) s t
    ⟨start.1, Nat.le_refl _, Nat.le_refl _⟩
  refine lock.choice (by decide) ?_ fun _ _ _ => operand .negate
  exact (weave.rangeExpr keeps depth).from fun _ _ kept => kept.trans start

theorem prefixed : Carries F (within (P depth) s₀ t₀) (same (Grammar.below (P depth) s₀ t₀))
    (prefixed x) (prefixed x') :=
  agree_recurse (weave.prefixStep keeps) depth ()

end Operands

theorem operationStep (weave : Weave place F P P opening closing) {operand : Nat → Rule S Expr}
    {operand' : Nat → Rule T Expr}
    (keeps : ∀ depth level, Keeps F (P depth) (operand level) (operand' level)) (s₀ : S) (t₀ : T)
    {k : Expr → Rule S Expr} {k' : Expr → Rule T Expr}
    (goesOn : ∀ depth j, Keeps F (Grammar.below (P depth) s₀ t₀) (k j) (k' j)) (level depth : Nat)
    (lhs : Expr) :
    Carries F (within (P depth) s₀ t₀) (same (within (P depth) s₀ t₀))
      (operationStep operand level k lhs) (operationStep operand' level k' lhs) := by
  have first := (weave.restrict s₀ t₀).ordinary depth
  apply first.currentKind.bind
  intro a b s t given
  obtain ⟨rfl, seen⟩ := given
  generalize found : a.bind binaryOperator? = operator
  cases operator with
  | none =>
    obtain ⟨_, _, _, ahead, _⟩ := seen
    exact .ok ⟨rfl, ahead.1⟩
  | some operator =>
    obtain ⟨op, opLevel⟩ := operator
    dsimp only
    split
    · obtain ⟨_, _, _, ahead, _⟩ := seen
      exact .ok ⟨rfl, ahead.1⟩
    · cases a with
      | none => cases found
      | some kind =>
        have ordinary : Ordinary kind := by
          cases kind <;> first | decide | cases found
        refine Carries.bind (first.advance_kind ordinary) (fun _ _ => ?_) s t seen
        refine Carries.from ?_ fun _ _ taken => taken.2.2
        apply ((keeps depth (opLevel + 1)).below s₀ t₀).carries.andThen
        intro rhs
        exact (goesOn depth _).carries.mono fun _ _ _ _ good => ⟨good.1, below_within good.2⟩

theorem operations (weave : Weave place F P P opening closing) {operand : Nat → Rule S Expr}
    {operand' : Nat → Rule T Expr}
    (keeps : ∀ depth level, Keeps F (P depth) (operand level) (operand' level)) (level depth : Nat)
    (lhs : Expr) :
    Keeps F (P depth) (operations operand level lhs) (operations operand' level lhs) :=
  keeps_recurse (fun s₀ t₀ _ _ goesOn depth lhs =>
    weave.operationStep keeps s₀ t₀ goesOn level depth lhs) depth lhs

theorem exprStep (weave : Weave place F P P opening closing) (s₀ : S) (t₀ : T)
    {k : Nat → Rule S Expr} {k' : Nat → Rule T Expr}
    (goesOn : ∀ depth j, Keeps F (Grammar.below (P depth) s₀ t₀) (k j) (k' j)) (depth level : Nat) :
    Carries F (within (P depth) s₀ t₀) (same (within (P depth) s₀ t₀))
      (exprStep k level) (exprStep k' level) := by
  apply (weave.prefixed (fun depth => goesOn depth 0) depth).andThen
  intro lhs
  exact ((weave.below s₀ t₀).operations goesOn level depth lhs).carries.mono
    fun _ _ _ _ good => ⟨good.1, below_within good.2⟩

theorem exprFrom (weave : Weave place F P P opening closing) (depth level : Nat) :
    Keeps F (P depth) (exprFrom level) (exprFrom level) :=
  keeps_recurse (fun s₀ t₀ _ _ goesOn depth level => weave.exprStep s₀ t₀ goesOn depth level)
    depth level

theorem expr (weave : Weave place F P P opening closing) (depth : Nat) :
    Keeps F (P depth) expr expr :=
  weave.exprFrom depth 0

theorem wholeExpr (weave : Weave place F P P opening closing) :
    Carries F (P 0) (same (P 0)) wholeExpr wholeExpr := by
  apply (weave.expr 0).carries.andThen
  intro e
  exact ((weave.ordinary 0).expectEnd []).andThen fun _ => Carries.give

end Weave

end Frontend.Grammar
