import Frontend.Proofs.Lockstep

-- The rules for expressions, on two sources that move in step.  The states are related differently in each
-- depth of segments, because who leaves a segment has to know that one is open.  Right behind the text of a
-- string and right behind the `}` of a segment they are related in ways of their own.

namespace Frontend.Grammar

open TokenSource TokenStep

variable {S T : Type} {α : Type}

-- A token that neither ends a text nor opens or closes a brace.
def Ordinary (kind : TokenKind) : Prop :=
  kind ≠ .stringText ∧ kind ≠ .leftBrace ∧ kind ≠ .rightBrace

instance (kind : TokenKind) : Decidable (Ordinary kind) := inferInstanceAs (Decidable (_ ∧ _ ∧ _))

-- How states are related after a token was taken in `depth` open segments.  No expression takes a
-- `{` in a segment.
def Lands (P opening closing : Nat → S → T → Prop) : Nat → TokenKind → S → T → Prop
  | depth, .stringText => opening depth
  | depth + 1, .rightBrace => closing depth
  | _ + 1, .leftBrace => fun _ _ => True
  | depth, _ => P depth

theorem lands_ordinary {P opening closing : Nat → S → T → Prop} {depth : Nat} {kind : TokenKind}
    (ordinary : Ordinary kind) : Lands P opening closing depth kind = P depth := by
  obtain ⟨_, _, _⟩ := ordinary
  cases depth <;> cases kind <;> first | rfl | contradiction

theorem lands_outside {P opening closing : Nat → S → T → Prop} {kind : TokenKind}
    (noText : kind ≠ .stringText) : Lands P opening closing 0 kind = P 0 := by
  cases kind <;> first | rfl | contradiction

variable [TokenSource S] [TokenSource T]

def TakenIn (place : Span → Span → Prop) (F : Faults S T) (P P' opening closing : Nat → S → T → Prop)
    (depth : Nat) : Option Token → Option Token → S → T → Prop
  | none, none, s, t => P depth s t
  | some x, some y, s, t => Alike place x y ∧ Lands P' opening closing depth x.kind s t ∧
      -- The token may turn out to be misplaced.
      ∀ e, e ≠ .unexpectedEnd → F.both (.grammatical ⟨x.span, e⟩) (.grammatical ⟨y.span, e⟩) s t
  | _, _, _, _ => False

-- The token that was taken last is a name.
def BehindName (s : S) : Prop := ∃ s₀ x, take s₀ = .ok (some x) s ∧ x.kind = .identifier

-- Two sources that move in step through strings and their segments.
structure Weave (place : Span → Span → Prop) (F : Faults S T)
    (P P' opening closing : Nat → S → T → Prop) : Prop where
  look : ∀ depth, Carries F (P depth)
    (fun a b s t => Option.Rel (Alike place) a b ∧ P depth s t) current current
  take : ∀ depth, Carries F (P depth) (TakenIn place F P P' opening closing depth)
    (ofStep take) (ofStep take)
  fault : ∀ {depth s t a b}, P depth s t → place a b →
    ∀ e, e ≠ .unexpectedEnd → F.both (.grammatical ⟨a, e⟩) (.grammatical ⟨b, e⟩) s t
  ended : ∀ {depth s t}, P depth s t →
    F.both (.grammatical ⟨F.eof, .unexpectedEnd⟩) (.grammatical ⟨F.eof', .unexpectedEnd⟩) s t
  -- What stands behind a text tells whether a segment begins there.
  afterText : ∀ depth, Carries F (opening depth) (fun a b s t => Option.Rel (Alike place) a b ∧
    if a.map Token.kind = some .stringEnd then P' depth s t else P' (depth + 1) s t) current current
  resume : ∀ depth, Carries F (closing depth) (same (P' depth)) (ofStep resumeText)
    (ofStep resumeText)
  generics : ∀ {depth s t}, P' depth s t → BehindName s → Agree F (same (within (P' depth) s t))
    (genericsAfterName typeExpr F.eof s) (genericsAfterName typeExpr F.eof' t)

theorem Lands.below {P opening closing : Nat → S → T → Prop} {s₀ s : S} {t₀ t : T}
    {depth : Nat} {kind : TokenKind} (lands : Lands P opening closing depth kind s t)
    (left : weight s < weight s₀) (right : weight t < weight t₀) :
    Lands (fun depth => below (P depth) s₀ t₀) (fun depth => below (opening depth) s₀ t₀)
      (fun depth => below (closing depth) s₀ t₀) depth kind s t := by
  cases depth <;> cases kind <;> first | exact ⟨lands, left, right⟩ | trivial

theorem kind_eq {place : Span → Span → Prop} {x y : Option Token}
    (alike : Option.Rel (Alike place) x y) : x.map Token.kind = y.map Token.kind := by
  cases alike with
  | none => rfl
  | some alike => exact congrArg some alike.kind

theorem isNext_eq (kind : TokenKind) :
    (isNext kind : Rule S Bool) = do return (← current).map Token.kind == some kind := by
  simp [isNext, currentKind]

namespace Weave

variable {place : Span → Span → Prop} {F : Faults S T} {P P' opening closing : Nat → S → T → Prop}

-- Seen from the tokens of some kinds, the sources move in step to wherever these lead.
theorem lock (weave : Weave place F P P' opening closing) {plain : TokenKind → Prop} {depth : Nat}
    {Q : S → T → Prop} (lands : ∀ kind, plain kind → Lands P' opening closing depth kind = Q) :
    Lock place plain F (P depth) Q where
  look := weave.look depth
  take s t start := (weave.take depth s t start).mono fun a b _ _ good => by
    cases a <;> cases b
    · exact good
    · exact good
    · exact good
    · exact ⟨good.1, fun ordinary => lands _ ordinary ▸ good.2.1⟩
  fault := weave.fault
  ended := weave.ended

theorem ordinary (weave : Weave place F P P' opening closing) (depth : Nat) :
    Lock place Ordinary F (P depth) (P' depth) :=
  weave.lock fun _ => lands_ordinary

theorem outside (weave : Weave place F P P' opening closing) :
    Lock place (· ≠ .stringText) F (P 0) (P' 0) :=
  weave.lock fun _ => lands_outside

theorem advance (weave : Weave place F P P' opening closing) (depth : Nat) :
    Carries F (P depth) (fun x y s t => Alike place x y ∧ Lands P' opening closing depth x.kind s t ∧
      (∀ e, e ≠ .unexpectedEnd → F.both (.grammatical ⟨x.span, e⟩) (.grammatical ⟨y.span, e⟩) s t) ∧
      (x.kind = .identifier → BehindName s)) advance advance := by
  have takes : Carries F (P depth) (fun a b s t => TakenIn place F P P' opening closing depth a b s t ∧
      ∃ s₀, TokenSource.take s₀ = .ok a s) (ofStep TokenSource.take) (ofStep TokenSource.take) :=
    fun s t start => (weave.take depth s t start).observe.mono fun a b _ _ found =>
      ⟨found.1, s, ofStep_ok.1 found.2.1⟩
  apply takes.bind
  intro a b
  cases a <;> cases b
  · exact fun s t good => .failed (weave.ended good.1)
  · exact fun s t bad => bad.1.elim
  · exact fun s t bad => bad.1.elim
  · refine Carries.pure fun s t found => ?_
    obtain ⟨⟨alike, landed, fault⟩, s₀, took⟩ := found
    exact ⟨alike, landed, fault, fun named => ⟨s₀, _, took, named⟩⟩

-- Behind a text the end of its string is seen on both sides, or on neither.
theorem isEnd (weave : Weave place F P P' opening closing) (depth : Nat) :
    Carries F (opening depth) (fun a b s t => a = b ∧ if a then ∃ x y,
        x.map Token.kind = some .stringEnd ∧ Ahead (P' depth) x y s t ∧ Option.Rel (Alike place) x y
      else P' (depth + 1) s t) (isNext .stringEnd) (isNext .stringEnd) := by
  rw [isNext_eq, isNext_eq]
  refine (weave.afterText depth).ahead.bind fun x y => Carries.pure ?_
  intro s t found
  obtain ⟨⟨alike, seen⟩, left, right⟩ := found
  refine ⟨congrArg (· == _) (kind_eq alike), ?_⟩
  by_cases ends : x.map Token.kind = some .stringEnd
  · rw [if_pos ends] at seen
    rw [if_pos (beq_iff_eq.2 ends)]
    exact ⟨x, y, ends, ⟨seen, left, right⟩, alike⟩
  · rw [if_neg ends] at seen
    rw [if_neg (mt beq_iff_eq.1 ends)]
    exact seen

theorem stringEnd? (weave : Weave place F P' P' opening closing) (depth : Nat) :
    Carries F (opening depth) (fun a b s t => a.isSome = b.isSome ∧
      if a.isSome then P' depth s t else P' (depth + 1) s t)
      (accept? .stringEnd) (accept? .stringEnd) := by
  apply (weave.isEnd depth).bind
  intro a b s t found
  obtain ⟨rfl, seen⟩ := found
  cases a with
  | false => exact .ok ⟨rfl, seen⟩
  | true =>
    refine Carries.bind ((weave.ordinary depth).advance_kind (by decide)) (fun x y => ?_) s t seen
    exact Carries.pure fun _ _ good => ⟨rfl, good.2.2⟩

-- A text: whether its string ends behind it tells how deep one is then.
theorem stringText (weave : Weave place F P P' opening closing)
    (later : Weave place F P' P' opening closing) (depth : Nat) :
    Carries F (P depth) (fun a b s t => a = b ∧ if a.2 then P' depth s t else P' (depth + 1) s t)
      stringText stringText := by
  have lock : Lock place (· = .stringText) F (P depth) (opening depth) :=
    weave.lock fun kind same => by subst same; rfl
  apply (lock.expect rfl).bind
  intro x y s t found
  obtain ⟨alike, -, opened⟩ := found
  refine Carries.bind (later.stringEnd? depth) (fun a b => ?_) s t opened
  exact Carries.pure fun s t good => ⟨Prod.ext alike.text good.1, good.2⟩

theorem leaveSegment (weave : Weave place F P P' opening closing) (depth : Nat) :
    Carries F (P (depth + 1)) (same (P' depth)) leaveSegment leaveSegment := by
  have lock : Lock place (· = .rightBrace) F (P (depth + 1)) (closing depth) :=
    weave.lock fun kind same => by subst same; rfl
  apply (lock.expect rfl).bind
  intro _ _
  exact (weave.resume depth).from fun _ _ closed => closed.2.2

-- Restricted to the states behind some start, the relations are kept in step as well.

theorem take_below (weave : Weave place F P P opening closing) {depth : Nat} {s₀ s : S} {t₀ t : T}
    {Q : Nat → S → T → Prop} (start : P depth s t) (left : weight s ≤ weight s₀)
    (right : weight t ≤ weight t₀) (kept : ∀ s' t', within (P depth) s t s' t' → Q depth s' t') :
    Agree F (TakenIn place F Q (fun depth => below (P depth) s₀ t₀)
      (fun depth => below (opening depth) s₀ t₀) (fun depth => below (closing depth) s₀ t₀) depth)
      (ofStep TokenSource.take F.eof s) (ofStep TokenSource.take F.eof' t) := by
  apply (weave.take depth s t start).observe.mono
  intro a b s' t' found
  obtain ⟨good, ran, ran'⟩ := found
  have ran := ofStep_ok.1 ran
  have ran' := ofStep_ok.1 ran'
  cases a <;> cases b
  · have lighter := weight_take_le s
    have lighter' := weight_take_le t
    rw [ran] at lighter
    rw [ran'] at lighter'
    exact kept _ _ ⟨good, lighter, lighter'⟩
  · exact good
  · exact good
  · exact ⟨good.1, good.2.1.below (Nat.lt_of_lt_of_le (weight_take_lt ran) left)
      (Nat.lt_of_lt_of_le (weight_take_lt ran') right), good.2.2⟩

theorem afterText_below (weave : Weave place F P P opening closing) (s₀ : S) (t₀ : T) (depth : Nat) :
    Carries F (below (opening depth) s₀ t₀) (fun a b s t => Option.Rel (Alike place) a b ∧
      if a.map Token.kind = some .stringEnd then below (P depth) s₀ t₀ s t
      else below (P (depth + 1)) s₀ t₀ s t) current current := by
  intro s t start
  apply (weave.afterText depth s t start.1).observe.mono
  intro a b s' t' found
  obtain ⟨good, ran, ran'⟩ := found
  have lighter := weight_look_le s
  have lighter' := weight_look_le t
  rw [ofStep_ok.1 ran] at lighter
  rw [ofStep_ok.1 ran'] at lighter'
  have left := Nat.lt_of_le_of_lt lighter start.2.1
  have right := Nat.lt_of_le_of_lt lighter' start.2.2
  refine ⟨good.1, ?_⟩
  split <;> rename_i ends
  · exact ⟨(if_pos ends).mp good.2, left, right⟩
  · exact ⟨(if_neg ends).mp good.2, left, right⟩

theorem resume_below (weave : Weave place F P P opening closing) (s₀ : S) (t₀ : T) (depth : Nat) :
    Carries F (below (closing depth) s₀ t₀) (same (below (P depth) s₀ t₀)) (ofStep resumeText)
      (ofStep resumeText) := by
  intro s t start
  apply (weave.resume depth s t start.1).observe.mono
  intro a b s' t' found
  obtain ⟨good, ran, ran'⟩ := found
  have lighter := weight_resumeText_le s
  have lighter' := weight_resumeText_le t
  rw [ofStep_ok.1 ran] at lighter
  rw [ofStep_ok.1 ran'] at lighter'
  exact ⟨good.1, good.2, Nat.lt_of_le_of_lt lighter start.2.1, Nat.lt_of_le_of_lt lighter' start.2.2⟩

theorem generics_below (weave : Weave place F P P opening closing) (s₀ : S) (t₀ : T) {depth : Nat} {s : S} {t : T}
    (passed : Grammar.below (P depth) s₀ t₀ s t) (named : BehindName s) :
    Agree F (same (within (Grammar.below (P depth) s₀ t₀) s t)) (genericsAfterName typeExpr F.eof s)
      (genericsAfterName typeExpr F.eof' t) :=
  (weave.generics passed.1 named).mono fun _ _ _ _ good => ⟨good.1, good.2.trans_below passed, good.2.2⟩

theorem restrict (weave : Weave place F P P opening closing) (s₀ : S) (t₀ : T) :
    Weave place F (fun depth => within (P depth) s₀ t₀) (fun depth => below (P depth) s₀ t₀)
      (fun depth => below (opening depth) s₀ t₀) (fun depth => below (closing depth) s₀ t₀) where
  look depth := ((weave.ordinary depth).restrict s₀ t₀).look
  take _ _ _ start := weave.take_below start.1 start.2.1 start.2.2 fun _ _ kept => kept.trans start
  fault start := weave.fault start.1
  ended start := weave.ended start.1
  afterText := weave.afterText_below s₀ t₀
  resume := weave.resume_below s₀ t₀
  generics := weave.generics_below s₀ t₀

theorem below (weave : Weave place F P P opening closing) (s₀ : S) (t₀ : T) :
    Weave place F (fun depth => Grammar.below (P depth) s₀ t₀)
      (fun depth => Grammar.below (P depth) s₀ t₀) (fun depth => Grammar.below (opening depth) s₀ t₀)
      (fun depth => Grammar.below (closing depth) s₀ t₀) where
  look depth := ((weave.ordinary depth).below s₀ t₀).look
  take _ _ _ start := weave.take_below start.1 (Nat.le_of_lt start.2.1) (Nat.le_of_lt start.2.2)
    fun _ _ kept => kept.trans_below start
  fault start := weave.fault start.1
  ended start := weave.ended start.1
  afterText := weave.afterText_below s₀ t₀
  resume := weave.resume_below s₀ t₀
  generics := weave.generics_below s₀ t₀

end Weave

end Frontend.Grammar
