import Frontend.Grammar.Node

-- Two sources of tokens that answer alike are read alike.  A rule is run on two sources whose states are
-- related.  Whatever relation the steps of the sources keep, the rules keep as well, and they give the same
-- trees and the same failures.  This module has the relation of two runs and the steps that all rules are made
-- of.

namespace Frontend.Grammar

open TokenSource TokenStep

structure Alike (place : Span → Span → Prop) (x y : Token) : Prop where
  kind : x.kind = y.kind
  text : x.text = y.text
  value : x.value = y.value
  span : place x.span y.span

-- Two runs of rules: where the inputs end, and how the runs may fail.
structure Faults (S T : Type) where
  eof : Span
  eof' : Span
  both : ReadError → ReadError → S → T → Prop
  -- The first run alone may fail like this, whatever the other one does.
  first : ReadError → S → Prop

variable {S T : Type}

inductive Agree {α β : Type} (F : Faults S T) (Q : α → β → S → T → Prop) :
    EStateM.Result ReadError S α → EStateM.Result ReadError T β → Prop where
  | ok {a b s t} : Q a b s t → Agree F Q (.ok a s) (.ok b t)
  | failed {e f s t} : F.both e f s t → Agree F Q (.error e s) (.error f t)
  | first {e s y} : F.first e s → Agree F Q (.error e s) y

-- From states related by `P` the two rules have outcomes that belong together.
def Carries {α β : Type} (F : Faults S T) (P : S → T → Prop) (Q : α → β → S → T → Prop)
    (r : Rule S α) (r' : Rule T β) : Prop :=
  ∀ s t, P s t → Agree F Q (r F.eof s) (r' F.eof' t)

def same {α : Type} (P : S → T → Prop) (a b : α) (s : S) (t : T) : Prop := a = b ∧ P s t

variable {α β γ δ : Type} {F : Faults S T} {P P' : S → T → Prop} {place : Span → Span → Prop}

theorem Agree.mono {Q Q' : α → β → S → T → Prop} {x : EStateM.Result ReadError S α}
    {y : EStateM.Result ReadError T β} (agree : Agree F Q x y)
    (weaken : ∀ a b s t, Q a b s t → Q' a b s t) : Agree F Q' x y := by
  cases agree with
  | ok good => exact .ok (weaken _ _ _ _ good)
  | failed bad => exact .failed bad
  | first bad => exact .first bad

theorem Agree.split {Q : α → β → S → T → Prop} {x : EStateM.Result ReadError S α}
    {y : EStateM.Result ReadError T β} (agree : Agree F Q x y) :
    (∃ a b s t, x = .ok a s ∧ y = .ok b t ∧ Q a b s t) ∨
      (∃ e f s t, x = .error e s ∧ y = .error f t ∧ F.both e f s t) ∨
      ∃ e s, x = .error e s ∧ F.first e s := by
  cases agree with
  | ok good => exact .inl ⟨_, _, _, _, rfl, rfl, good⟩
  | failed bad => exact .inr (.inl ⟨_, _, _, _, rfl, rfl, bad⟩)
  | first bad => exact .inr (.inr ⟨_, _, rfl, bad⟩)

theorem Agree.observe {Q : α → β → S → T → Prop} {x : EStateM.Result ReadError S α}
    {y : EStateM.Result ReadError T β} (agree : Agree F Q x y) :
    Agree F (fun a b s t => Q a b s t ∧ x = .ok a s ∧ y = .ok b t) x y := by
  cases agree with
  | ok good => exact .ok ⟨good, rfl, rfl⟩
  | failed bad => exact .failed bad
  | first bad => exact .first bad

theorem Carries.mono {Q Q' : α → β → S → T → Prop} {r : Rule S α} {r' : Rule T β}
    (carries : Carries F P Q r r') (weaken : ∀ a b s t, Q a b s t → Q' a b s t) :
    Carries F P Q' r r' :=
  fun s t start => (carries s t start).mono weaken

theorem Carries.from {Q : α → β → S → T → Prop} {r : Rule S α} {r' : Rule T β}
    (carries : Carries F P Q r r') (strengthen : ∀ s t, P' s t → P s t) : Carries F P' Q r r' :=
  fun s t start => carries s t (strengthen s t start)

theorem Carries.pure {Q : α → β → S → T → Prop} {a : α} {b : β}
    (good : ∀ s t, P s t → Q a b s t) : Carries F P Q (pure a) (pure b) :=
  fun s t start => .ok (good s t start)

theorem Agree.bind {Q : α → β → S → T → Prop} {R : γ → δ → S → T → Prop} {r : Rule S α}
    {r' : Rule T β} {k : α → Rule S γ} {k' : β → Rule T δ} {s : S} {t : T}
    (begins : Agree F Q (r F.eof s) (r' F.eof' t)) (goesOn : ∀ a b, Carries F (Q a b) R (k a) (k' b)) :
    Agree F R ((r >>= k) F.eof s) ((r' >>= k') F.eof' t) := by
  simp only [Bind.bind, ReaderT.bind, EStateM.bind]
  generalize r F.eof s = x at begins ⊢
  generalize r' F.eof' t = y at begins ⊢
  cases begins with
  | ok good => exact goesOn _ _ _ _ good
  | failed bad => exact .failed bad
  | first bad => exact .first bad

theorem Carries.bind {Q : α → β → S → T → Prop} {R : γ → δ → S → T → Prop} {r : Rule S α}
    {r' : Rule T β} {k : α → Rule S γ} {k' : β → Rule T δ} (begins : Carries F P Q r r')
    (goesOn : ∀ a b, Carries F (Q a b) R (k a) (k' b)) : Carries F P R (r >>= k) (r' >>= k') :=
  fun s t start => (begins s t start).bind goesOn

theorem Carries.andThen {R : γ → δ → S → T → Prop} {r : Rule S α} {r' : Rule T α}
    {k : α → Rule S γ} {k' : α → Rule T δ} (begins : Carries F P (same P') r r')
    (goesOn : ∀ a, Carries F P' R (k a) (k' a)) : Carries F P R (r >>= k) (r' >>= k') := by
  apply begins.bind
  intro a b s t start
  obtain ⟨rfl, start⟩ := start
  exact goesOn a s t start

theorem Carries.give {a : α} : Carries F P (same P) (Pure.pure a) (Pure.pure a) :=
  Carries.pure fun _ _ start => ⟨rfl, start⟩

-- What two runs come to that start from related states and are told where their inputs end.
theorem Carries.runs {Q : α → β → S → T → Prop} {r : Rule S α} {r' : Rule T β} {m n : Nat} {s : S} {t : T}
    (carries : Carries F P Q r r') (start : P s t) (eof : F.eof = .empty m) (eof' : F.eof' = .empty n) :
    (∃ a b u v, runOn r s m = .ok a ∧ runOn r' t n = .ok b ∧ Q a b u v) ∨
      (∃ e f u v, runOn r s m = .error e ∧ runOn r' t n = .error f ∧ F.both e f u v) ∨
      ∃ e u, runOn r s m = .error e ∧ F.first e u := by
  have agree := carries s t start
  rw [eof, eof'] at agree
  unfold runOn
  rcases agree.split with ⟨a, b, u, v, ran, ran', good⟩ | ⟨e, f, u, v, ran, ran', bad⟩ | ⟨e, u, ran, bad⟩
  · exact .inl ⟨a, b, u, v, by rw [ran], by rw [ran'], good⟩
  · exact .inr (.inl ⟨e, f, u, v, by rw [ran], by rw [ran'], bad⟩)
  · exact .inr (.inr ⟨e, u, by rw [ran], bad⟩)

section Steps

variable [TokenSource S] [TokenSource T]

-- States that are related and have come no less far than `s₀` and `t₀`,
def within (P : S → T → Prop) (s₀ : S) (t₀ : T) (s : S) (t : T) : Prop :=
  P s t ∧ weight s ≤ weight s₀ ∧ weight t ≤ weight t₀

-- and those that have come farther.
def below (P : S → T → Prop) (s₀ : S) (t₀ : T) (s : S) (t : T) : Prop :=
  P s t ∧ weight s < weight s₀ ∧ weight t < weight t₀

-- The two rules give the same and keep `P`; neither goes back behind its start.
def Keeps (F : Faults S T) (P : S → T → Prop) (r : Rule S α) (r' : Rule T α) : Prop :=
  ∀ s t, P s t → Agree F (same (within P s t)) (r F.eof s) (r' F.eof' t)

theorem below_within {s₀ : S} {t₀ : T} {s : S} {t : T} (passed : below P s₀ t₀ s t) :
    within P s₀ t₀ s t :=
  ⟨passed.1, Nat.le_of_lt passed.2.1, Nat.le_of_lt passed.2.2⟩

theorem within.trans {s₀ : S} {t₀ : T} {s s' : S} {t t' : T} (later : within P s t s' t')
    (start : within P' s₀ t₀ s t) : within P s₀ t₀ s' t' :=
  ⟨later.1, Nat.le_trans later.2.1 start.2.1, Nat.le_trans later.2.2 start.2.2⟩

theorem within.trans_below {s₀ : S} {t₀ : T} {s s' : S} {t t' : T} (later : within P s t s' t')
    (start : below P' s₀ t₀ s t) : below P s₀ t₀ s' t' :=
  ⟨later.1, Nat.lt_of_le_of_lt later.2.1 start.2.1, Nat.lt_of_le_of_lt later.2.2 start.2.2⟩

theorem below.trans {s₀ : S} {t₀ : T} {s s' : S} {t t' : T} (later : below P s t s' t')
    (start : within P' s₀ t₀ s t) : below P s₀ t₀ s' t' :=
  ⟨later.1, Nat.lt_of_lt_of_le later.2.1 start.2.1, Nat.lt_of_lt_of_le later.2.2 start.2.2⟩

theorem Keeps.carries {r : Rule S α} {r' : Rule T α} (keeps : Keeps F P r r') :
    Carries F P (same P) r r' :=
  fun s t start => (keeps s t start).mono fun _ _ _ _ good => ⟨good.1, good.2.1⟩

theorem Keeps.below {r : Rule S α} {r' : Rule T α} (keeps : Keeps F P r r') (s₀ : S) (t₀ : T) :
    Keeps F (below P s₀ t₀) r r' := by
  intro s t start
  refine (keeps s t start.1).mono fun a b s' t' good => ⟨good.1, ⟨good.2.1, ?_, ?_⟩, good.2.2⟩
  · exact Nat.lt_of_le_of_lt good.2.2.1 start.2.1
  · exact Nat.lt_of_le_of_lt good.2.2.2 start.2.2

theorem Keeps.within {r : Rule S α} {r' : Rule T α} (keeps : Keeps F P r r') (s₀ : S) (t₀ : T) :
    Carries F (within P s₀ t₀) (same (within P s₀ t₀)) r r' := by
  intro s t start
  refine (keeps s t start.1).mono fun a b s' t' good => ⟨good.1, good.2.1, ?_, ?_⟩
  · exact Nat.le_trans good.2.2.1 start.2.1
  · exact Nat.le_trans good.2.2.2 start.2.2

theorem keeps_of_within {r : Rule S α} {r' : Rule T α}
    (carries : ∀ s₀ t₀, Carries F (within P s₀ t₀) (same (within P s₀ t₀)) r r') : Keeps F P r r' :=
  fun s t start => carries s t s t ⟨start, Nat.le_refl _, Nat.le_refl _⟩

-- The steps do what `Q` says, if recursive uses at states that lie farther on do.
def StepsAgree {κ ι : Type} (F : Faults S T) (P : κ → S → T → Prop)
    (Q : κ → S → T → α → α → S → T → Prop) (step : (ι → Rule S α) → ι → Rule S α)
    (step' : (ι → Rule T α) → ι → Rule T α) : Prop :=
  ∀ s₀ t₀ k k',
    (∀ c j s t, Grammar.below (P c) s₀ t₀ s t → Agree F (Q c s t) (k j F.eof s) (k' j F.eof' t)) →
    ∀ c i, P c s₀ t₀ → Agree F (Q c s₀ t₀) (step k i F.eof s₀) (step' k' i F.eof' t₀)

def StepsKeep {κ ι : Type} (F : Faults S T) (P : κ → S → T → Prop)
    (step : (ι → Rule S α) → ι → Rule S α) (step' : (ι → Rule T α) → ι → Rule T α) : Prop :=
  ∀ s₀ t₀ k k', (∀ c j, Keeps F (Grammar.below (P c) s₀ t₀) (k j) (k' j)) →
    ∀ c i, Carries F (Grammar.within (P c) s₀ t₀) (same (Grammar.within (P c) s₀ t₀))
      (step k i) (step' k' i)

section Recursion

variable {κ ι : Type} {P : κ → S → T → Prop} {Q : κ → S → T → α → α → S → T → Prop}
  {step : (ι → Rule S α) → ι → Rule S α} {step' : (ι → Rule T α) → ι → Rule T α}

-- A rule that refers to itself does what its step does.
--
-- At the states that lie farther on than the start, recursive uses are honoured on both sides, and they
-- may be taken to do the same already.
theorem agree_recurse (steps : StepsAgree F P Q step step') (c : κ) (i : ι) (s : S) (t : T)
    (start : P c s t) : Agree F (Q c s t) (recurse step i F.eof s) (recurse step' i F.eof' t) := by
  suffices bounded : ∀ n c i s t, P c s t → weight s < n →
      Agree F (Q c s t) (recurse step i F.eof s) (recurse step' i F.eof' t) from
    bounded (weight s + 1) c i s t start (Nat.lt_succ_self _)
  intro n
  induction n with
  | zero => intro _ _ _ _ _ small; exact absurd small (Nat.not_lt_zero _)
  | succ n ih =>
    intro c i s t start small
    rw [recurse, recurse]
    refine steps s t _ _ ?_ c i start
    intro d j s' t' passed
    simp only [passed.2.1, passed.2.2, if_true]
    exact ih d j s' t' passed.1 (Nat.lt_of_lt_of_le passed.2.1 (Nat.le_of_lt_succ small))

theorem StepsKeep.agree (steps : StepsKeep F P step step') :
    StepsAgree F P (fun c s t => same (Grammar.within (P c) s t)) step step' := by
  intro s₀ t₀ k k' keeps c i start
  refine steps s₀ t₀ k k' (fun d j s t passed => ?_) c i s₀ t₀ ⟨start, Nat.le_refl _, Nat.le_refl _⟩
  exact (keeps d j s t passed).mono fun a b u v good =>
    ⟨good.1, good.2.trans_below passed, good.2.2⟩

theorem keeps_recurse (steps : StepsKeep F P step step') (c : κ) (i : ι) :
    Keeps F (P c) (recurse step i) (recurse step' i) :=
  agree_recurse steps.agree c i

end Recursion

end Steps

end Frontend.Grammar
