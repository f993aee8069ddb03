import Frontend.Proofs.Agreement

-- The rules for single tokens and for types, on two sources that move in step.

namespace Frontend.Grammar

open TokenSource TokenStep

variable {S T : Type} {α β : Type}

theorem ofStep_ok {step : S → TokenStep S α} {eof : Span} {s s' : S} {a : α} :
    ofStep step eof s = .ok a s' ↔ step s = .ok a s' := by
  unfold ofStep
  split <;> rename_i same <;> simp [same]

-- The next tokens taken on both sides, if any.  After a token of a `plain` kind the states are related
-- by `P'`; after another one nothing is said.
def Taken (place : Span → Span → Prop) (plain : TokenKind → Prop) (P P' : S → T → Prop) :
    Option Token → Option Token → S → T → Prop
  | none, none, s, t => P s t
  | some x, some y, s, t => Alike place x y ∧ (plain x.kind → P' s t)
  | _, _, _, _ => False

theorem Taken.mono {place : Span → Span → Prop} {plain : TokenKind → Prop} {P P' Q Q' : S → T → Prop}
    {a b : Option Token} {s : S} {t : T} (taken : Taken place plain P P' a b s t)
    (kept : P s t → Q s t) (passed : P' s t → Q' s t) : Taken place plain Q Q' a b s t := by
  cases a <;> cases b
  · exact kept taken
  · exact taken
  · exact taken
  · exact ⟨taken.1, fun ordinary => passed (taken.2 ordinary)⟩

variable [TokenSource S] [TokenSource T]

-- Two sources that move in step: looking keeps `P`, and taking a plain token leads from `P` to `P'`.
structure Lock (place : Span → Span → Prop) (plain : TokenKind → Prop) (F : Faults S T)
    (P P' : S → T → Prop) : Prop where
  look : Carries F P (fun a b s t => Option.Rel (Alike place) a b ∧ P s t) current current
  take : Carries F P (Taken place plain P P') (ofStep take) (ofStep take)
  -- What is misplaced on both sides is a token,
  fault : ∀ {s t a b}, P s t → place a b → ∀ e, e ≠ .unexpectedEnd →
    F.both (.grammatical ⟨a, e⟩) (.grammatical ⟨b, e⟩) s t
  -- or both inputs are over, each where it ends.
  ended : ∀ {s t}, P s t →
    F.both (.grammatical ⟨F.eof, .unexpectedEnd⟩) (.grammatical ⟨F.eof', .unexpectedEnd⟩) s t

def Takes (s : S) (a : Option Token) : Prop := ∃ s', take s = .ok a s'

def Ahead (P : S → T → Prop) (a b : Option Token) (s : S) (t : T) : Prop :=
  P s t ∧ Takes s a ∧ Takes t b

theorem Carries.ahead {F : Faults S T} {P : S → T → Prop}
    {Q : Option Token → Option Token → S → T → Prop} (looks : Carries F P Q current current) :
    Carries F P (fun a b s t => Q a b s t ∧ Takes s a ∧ Takes t b) current current :=
  fun s t start => (looks s t start).observe.mono fun _ _ _ _ ⟨good, left, right⟩ =>
    ⟨good, take_of_look (ofStep_ok.1 left), take_of_look (ofStep_ok.1 right)⟩

-- A token of the given kind was taken on both sides, or another one stands there on both.
def Accepted (place : Span → Span → Prop) (kind : TokenKind) (P P' : S → T → Prop) :
    Option Token → Option Token → S → T → Prop
  | none, none, s, t => P s t
  | some x, some y, s, t => Alike place x y ∧ x.kind = kind ∧ P' s t
  | _, _, _, _ => False

namespace Lock

variable {place : Span → Span → Prop} {plain : TokenKind → Prop} {F : Faults S T}
  {P P' : S → T → Prop} {kind : TokenKind}

theorem current (lock : Lock place plain F P P') :
    Carries F P (fun a b s t => Option.Rel (Alike place) a b ∧ Ahead P a b s t)
      current current :=
  lock.look.ahead.mono fun _ _ _ _ good => ⟨good.1.1, good.1.2, good.2⟩

theorem advance_ahead (lock : Lock place plain F P P') {x y : Token} (ordinary : plain x.kind) :
    Carries F (Ahead P (some x) (some y)) (fun a b s t => a = x ∧ b = y ∧ P' s t)
      Grammar.advance Grammar.advance := by
  intro s t found
  obtain ⟨start, ⟨s', left⟩, ⟨t', right⟩⟩ := found
  have outcome := lock.take s t start
  rw [ofStep_ok.2 left, ofStep_ok.2 right] at outcome
  cases outcome with
  | ok good =>
    simp only [Grammar.advance, Bind.bind, ReaderT.bind, EStateM.bind, ofStep_ok.2 left, ofStep_ok.2 right]
    exact .ok ⟨rfl, rfl, good.2 ordinary⟩

theorem currentKind (lock : Lock place plain F P P') :
    Carries F P (fun a b s t => a = b ∧ ∃ x y, x.map Token.kind = a ∧ Ahead P x y s t ∧
      Option.Rel (Alike place) x y) currentKind currentKind := by
  refine lock.current.bind fun x y => Carries.pure fun s t ⟨alike, ahead⟩ => ⟨?_, x, y, rfl, ahead, alike⟩
  cases alike with
  | none => rfl
  | some alike => exact congrArg some alike.kind

-- After the kind of the next token was seen, that token is taken.
theorem advance_kind (lock : Lock place plain F P P') (ordinary : plain kind) :
    Carries F (fun s t => ∃ x y, x.map Token.kind = some kind ∧ Ahead P x y s t ∧
      Option.Rel (Alike place) x y)
      (fun x y s t => Alike place x y ∧ x.kind = kind ∧ P' s t) Grammar.advance Grammar.advance := by
  intro s t found
  obtain ⟨x, y, seen, ahead, alike⟩ := found
  cases alike with
  | none => cases seen
  | @some x y alike =>
    have same : x.kind = kind := Option.some.inj seen
    refine (lock.advance_ahead (same ▸ ordinary) s t ahead).mono ?_
    intro a b s' t' found
    obtain ⟨rfl, rfl, good⟩ := found
    exact ⟨alike, same, good⟩

theorem isNext (lock : Lock place plain F P P') :
    Carries F P (fun a b s t => a = b ∧ P s t ∧ (a = true → ∃ x y, x.map Token.kind = some kind ∧
      Ahead P x y s t ∧ Option.Rel (Alike place) x y)) (isNext kind) (isNext kind) := by
  refine lock.currentKind.bind fun a b => Carries.pure ?_
  intro s t found
  obtain ⟨rfl, x, y, seen, ahead, alike⟩ := found
  exact ⟨rfl, ahead.1, fun next => ⟨x, y, seen.trans (beq_iff_eq.1 next), ahead, alike⟩⟩

theorem accept? (lock : Lock place plain F P P') (ordinary : plain kind) :
    Carries F P (Accepted place kind P P') (accept? kind) (accept? kind) := by
  apply lock.isNext.bind
  intro a b s t found
  obtain ⟨rfl, kept, seen⟩ := found
  cases a with
  | false => exact .ok kept
  | true =>
    refine Carries.bind (lock.advance_kind ordinary) ?_ s t (seen rfl)
    exact fun x y => Carries.pure fun _ _ good => good

-- A token of the given kind leads on to one continuation, any other one to the other.
theorem choice (lock : Lock place plain F P P') (ordinary : plain kind) {R : α → β → S → T → Prop}
    {k : Option Token → Rule S α} {k' : Option Token → Rule T β}
    (absent : Carries F P R (k none) (k' none))
    (present : ∀ x y, Alike place x y → Carries F P' R (k (some x)) (k' (some y))) :
    Carries F P R (Grammar.accept? kind >>= k) (Grammar.accept? kind >>= k') := by
  apply (lock.accept? ordinary).bind
  intro a b
  cases a <;> cases b
  · exact absent
  · exact fun _ _ bad => bad.elim
  · exact fun _ _ bad => bad.elim
  · exact fun s t taken => present _ _ taken.1 s t taken.2.2

theorem expectAny (lock : Lock place plain F P P') {kinds : List TokenKind}
    (ordinary : ∀ kind ∈ kinds, plain kind) :
    Carries F P (fun x y s t => Alike place x y ∧ x.kind ∈ kinds ∧ P' s t)
      (expectAny kinds) (expectAny kinds) := by
  apply lock.current.bind
  intro a b s t both
  obtain ⟨alike, ahead⟩ := both
  cases alike with
  | none => exact .failed (lock.ended ahead.1)
  | @some x y alike =>
    dsimp only
    rw [← alike.kind]
    split
    · next present =>
      refine (lock.advance_ahead (ordinary _ present) s t ahead).mono ?_
      intro a b s' t' given
      obtain ⟨rfl, rfl, good⟩ := given
      exact ⟨alike, present, good⟩
    · exact .failed (lock.fault ahead.1 alike.span _ nofun)

theorem expect (lock : Lock place plain F P P') (ordinary : plain kind) :
    Carries F P (fun x y s t => Alike place x y ∧ x.kind = kind ∧ P' s t)
      (expect kind) (expect kind) := by
  apply lock.current.bind
  intro a b s t given
  obtain ⟨alike, ahead⟩ := given
  cases alike with
  | none => exact .failed (lock.ended ahead.1)
  | @some x y alike =>
    dsimp only
    rw [← alike.kind]
    split
    · next found =>
      refine (lock.advance_ahead (found ▸ ordinary) s t ahead).mono ?_
      intro a b s' t' given
      obtain ⟨rfl, rfl, good⟩ := given
      exact ⟨alike, found, good⟩
    · exact .failed (lock.fault ahead.1 alike.span _ nofun)

theorem expectEnd (lock : Lock place plain F P P') (kinds : List TokenKind) :
    Carries F P (same P) (expectEnd kinds) (expectEnd kinds) := by
  apply lock.current.bind
  intro a b s t given
  obtain ⟨alike, ahead⟩ := given
  cases alike with
  | none => exact .ok ⟨rfl, ahead.1⟩
  | @some x y alike =>
    dsimp only
    rw [← alike.kind]
    exact .failed (lock.fault ahead.1 alike.span _ nofun)

theorem identifier (lock : Lock place plain F P P') (ordinary : plain .identifier) :
    Carries F P (same P') identifier identifier :=
  (lock.expect ordinary).bind fun _ _ => Carries.pure fun _ _ good => ⟨good.1.text, good.2.2⟩

-- Restricted to the states behind some start, a relation is kept in step as well.

theorem look_within (lock : Lock place plain F P P') {s : S} {t : T} (start : P s t) :
    Agree F (fun a b s' t' => Option.Rel (Alike place) a b ∧ within P s t s' t')
      (Grammar.current F.eof s) (Grammar.current F.eof' t) := by
  apply (lock.look s t start).observe.mono
  intro a b s' t' given
  obtain ⟨good, left, right⟩ := given
  have lighter := weight_look_le s
  have lighter' := weight_look_le t
  rw [ofStep_ok.1 left] at lighter
  rw [ofStep_ok.1 right] at lighter'
  exact ⟨good.1, good.2, lighter, lighter'⟩

theorem take_below (lock : Lock place plain F P P') {s : S} {t : T} (start : P s t) :
    Agree F (Taken place plain (within P s t) (Grammar.below P' s t)) (ofStep TokenSource.take F.eof s)
      (ofStep TokenSource.take F.eof' t) := by
  apply (lock.take s t start).observe.mono
  intro a b s' t' found
  obtain ⟨good, left, right⟩ := found
  have left := ofStep_ok.1 left
  have right := ofStep_ok.1 right
  cases a <;> cases b
  · have lighter := weight_take_le s
    have lighter' := weight_take_le t
    rw [left] at lighter
    rw [right] at lighter'
    exact ⟨good, lighter, lighter'⟩
  · exact good
  · exact good
  · exact ⟨good.1, fun ordinary => ⟨good.2 ordinary, weight_take_lt left, weight_take_lt right⟩⟩

theorem restrict (lock : Lock place plain F P P') (s₀ : S) (t₀ : T) :
    Lock place plain F (within P s₀ t₀) (below P' s₀ t₀) where
  look _ _ start := (lock.look_within start.1).mono fun _ _ _ _ good =>
    ⟨good.1, good.2.trans start⟩
  take _ _ start := (lock.take_below start.1).mono fun _ _ _ _ good =>
    good.mono (·.trans start) (·.trans start)
  fault start := lock.fault start.1
  ended start := lock.ended start.1

theorem below (lock : Lock place plain F P P) (s₀ : S) (t₀ : T) :
    Lock place plain F (below P s₀ t₀) (Grammar.below P s₀ t₀) where
  look _ _ start := (lock.look_within start.1).mono fun _ _ _ _ good =>
    ⟨good.1, good.2.trans_below start⟩
  take _ _ start := (lock.take_below start.1).mono fun _ _ _ _ good =>
    good.mono (·.trans_below start) (below_within · |>.trans_below start)
  fault start := lock.fault start.1
  ended start := lock.ended start.1

variable {item : Rule S α} {item' : Rule T α}

theorem commaStep (lock : Lock place plain F P P) (ordinary : plain .comma)
    (items : Keeps F P item item') (s₀ : S) (t₀ : T) {k : Unit → Rule S (List α)}
    {k' : Unit → Rule T (List α)} (keeps : ∀ j, Keeps F (Grammar.below P s₀ t₀) (k j) (k' j)) :
    Carries F (within P s₀ t₀) (same (within P s₀ t₀))
      (commaStep item k ()) (commaStep item' k' ()) := by
  refine (lock.restrict s₀ t₀).choice ordinary Carries.give ?_
  intro _ _ _
  apply (items.below s₀ t₀).carries.andThen
  intro x
  apply (keeps ()).carries.andThen
  intro xs
  exact Carries.pure fun _ _ passed => ⟨rfl, below_within passed⟩

theorem afterCommas (lock : Lock place plain F P P) (ordinary : plain .comma)
    (items : Keeps F P item item') : Keeps F P (afterCommas item) (afterCommas item') :=
  keeps_recurse (P := fun _ : Unit => P)
    (fun s₀ t₀ _ _ keeps _ _ => lock.commaStep ordinary items s₀ t₀ (keeps ())) () ()

theorem itemStep (lock : Lock place plain F P P) (ordinary : plain .comma) (close : TokenKind)
    (items : Keeps F P item item') (s₀ : S) (t₀ : T) {k : Unit → Rule S (List α)}
    {k' : Unit → Rule T (List α)} (keeps : ∀ j, Keeps F (Grammar.below P s₀ t₀) (k j) (k' j)) :
    Carries F (within P s₀ t₀) (same (within P s₀ t₀))
      (itemStep close item k ()) (itemStep close item' k' ()) := by
  apply (lock.restrict s₀ t₀).isNext.bind
  intro a b s t found
  obtain ⟨rfl, start, -⟩ := found
  cases a with
  | true => exact .ok ⟨rfl, start⟩
  | false =>
    refine Carries.andThen (items.within s₀ t₀) (fun x => ?_) s t start
    refine (lock.restrict s₀ t₀).choice ordinary Carries.give ?_
    intro _ _ _
    apply (keeps ()).carries.andThen
    intro xs
    exact Carries.pure fun _ _ passed => ⟨rfl, below_within passed⟩

theorem itemsUntil (lock : Lock place plain F P P) (ordinary : plain .comma) (close : TokenKind)
    (items : Keeps F P item item') :
    Keeps F P (itemsUntil close item) (itemsUntil close item') :=
  keeps_recurse (P := fun _ : Unit => P)
    (fun s₀ t₀ _ _ keeps _ _ => lock.itemStep ordinary close items s₀ t₀ (keeps ())) () ()

end Lock

def typeKinds : List TokenKind := [.identifier, .less, .comma, .greater]

-- A position is remembered already, so no attempt remembers another one.
def Sealed (P : S → T → Prop) : Prop := ∀ s t, P s t → begin? s = none ∧ begin? t = none

-- Related states and failures that have not come back to more than the room given.
def roomed (P : S → T → Prop) (m n : Nat) (s : S) (t : T) : Prop := P s t ∧ room s ≤ m ∧ room t ≤ n

def Faults.roomed (F : Faults S T) (m n : Nat) : Faults S T where
  eof := F.eof
  eof' := F.eof'
  both e f s t := F.both e f s t ∧ room s ≤ m ∧ room t ≤ n
  first := F.first

-- An attempt leads from `P` to the relation `P'` of states with a remembered position, and back.
structure Opens (F : Faults S T) (P : S → T → Prop) (F' : Faults S T) (P' : S → T → Prop) : Prop where
  -- It is made in the same two inputs.
  eof : F'.eof = F.eof
  eof' : F'.eof' = F.eof'
  begins : ∀ {s t}, P s t → ∃ s' t', begin? s = some s' ∧ begin? t = some t' ∧ P' s' t'
  commits : ∀ {s t}, P' s t → P (commit s) (commit t)
  -- Both runs give up for the same kind of reason,
  alike : ∀ {e f s t}, F'.both e f s t → e.isLexical = f.isLexical
  -- and only one that the grammar has is forgotten.
  fails : ∀ {e f s t}, F'.both e f s t → e.isLexical = true → F.both e f (reset s) (reset t)
  resets : ∀ {e f s t}, F'.both e f s t → e.isLexical = false → P (reset s) (reset t)
  first : ∀ {e s}, F'.first e s → e.isLexical = true ∧ F.first e (reset s)

section Types

variable {place : Span → Span → Prop} {plain : TokenKind → Prop} {F F' : Faults S T}
  {P P' : S → T → Prop}

theorem Agree.roomed {Q : α → α → S → T → Prop} {step : S → TokenStep S α}
    {step' : T → TokenStep T α} {s : S} {t : T} {m n : Nat}
    (agree : Agree F Q (ofStep step F.eof s) (ofStep step' F.eof' t)) (left : room (after (step s)) ≤ m)
    (right : room (after (step' t)) ≤ n) :
    Agree (F.roomed m n) (fun a b s' t' => Q a b s' t' ∧ room s' ≤ m ∧ room t' ≤ n)
      (ofStep step F.eof s) (ofStep step' F.eof' t) := by
  unfold ofStep at agree ⊢
  generalize step s = x at agree left ⊢
  generalize step' t = y at agree right ⊢
  cases x <;> cases y <;> cases agree
  · next good => exact .ok ⟨good, left, right⟩
  · next bad => exact .first bad
  · next bad => exact .failed ⟨bad, left, right⟩
  · next bad => exact .first bad

theorem Lock.roomed (lock : Lock place plain F P P) (m n : Nat) :
    Lock place plain (F.roomed m n) (roomed P m n) (roomed P m n) where
  look s t start := by
    have left := Nat.le_trans (room_look_le s) start.2.1
    have right := Nat.le_trans (room_look_le t) start.2.2
    exact ((lock.look s t start.1).roomed left right).mono fun _ _ _ _ good =>
      ⟨good.1.1, good.1.2, good.2⟩
  take s t start := by
    have left := Nat.le_trans (room_take_le s) start.2.1
    have right := Nat.le_trans (room_take_le t) start.2.2
    exact ((lock.take s t start.1).roomed left right).mono fun _ _ _ _ good =>
      good.1.mono (⟨·, good.2⟩) (⟨·, good.2⟩)
  fault start alike e inside := ⟨lock.fault start.1 alike e inside, start.2⟩
  ended start := ⟨lock.ended start.1, start.2⟩

theorem attempt_none {r : Rule S α} {eof : Span} {s : S} (closed : begin? s = none) :
    attempt r eof s = (some <$> r) eof s := by
  simp only [attempt, closed]

theorem attempt_ok {r : Rule S α} {eof : Span} {s s' u : S} {a : α} (begun : begin? s = some s')
    (ran : r eof s' = .ok a u) : attempt r eof s = .ok (some a) (commit u) := by
  simp only [attempt, begun, ran]

theorem attempt_failed {r : Rule S α} {eof : Span} {s s' u : S} {e : ReadError} (begun : begin? s = some s')
    (failed : r eof s' = .error e u) :
    attempt r eof s = if e.isLexical then .error e (reset u) else .ok none (reset u) := by
  simp only [attempt, begun, failed]

theorem Sealed.attempt {r : Rule S α} {r' : Rule T α} (shut : Sealed P) (keeps : Keeps F P r r') :
    Keeps F P (attempt r) (attempt r') := by
  intro s t start
  have outcome := keeps s t start
  rw [attempt_none (shut s t start).1, attempt_none (shut s t start).2]
  simp only [Functor.map, EStateM.map]
  generalize r F.eof s = x at outcome ⊢
  generalize r' F.eof' t = y at outcome ⊢
  cases outcome with
  | ok good => exact .ok ⟨congrArg some good.1, good.2⟩
  | failed bad => exact .failed bad
  | first bad => exact .first bad

theorem Opens.attempt {r : Rule S α} {r' : Rule T α} (opens : Opens F P F' P') {s : S} {t : T}
    (start : P s t) (keeps : Carries (F'.roomed (weight s) (weight t))
      (Grammar.roomed P' (weight s) (weight t)) (same (Grammar.roomed P' (weight s) (weight t))) r r') :
    Agree F (same (within P s t)) (attempt r F.eof s) (attempt r' F.eof' t) := by
  obtain ⟨s', t', left, right, opened⟩ := opens.begins start
  have outcome := keeps s' t' ⟨opened, room_begin_le left, room_begin_le right⟩
  simp only [Faults.roomed, opens.eof, opens.eof'] at outcome
  replace outcome := outcome.split
  rcases outcome with ⟨a, b, u, v, ran, ran', rfl, kept, room, room'⟩ |
      ⟨e, f, u, v, ran, ran', bad, room, room'⟩ | ⟨e, u, ran, bad⟩
  · rw [attempt_ok left ran, attempt_ok right ran']
    refine .ok ⟨rfl, opens.commits kept, ?_, ?_⟩
    · exact Nat.le_trans (weight_commit_le _) (Nat.le_trans (weight_le_room _) room)
    · exact Nat.le_trans (weight_commit_le _) (Nat.le_trans (weight_le_room _) room')
  · rw [attempt_failed left ran, attempt_failed right ran', ← opens.alike bad]
    cases reason : e.isLexical with
    | true => exact .failed (opens.fails bad reason)
    | false =>
      have back := Nat.le_trans (weight_reset_le u) room
      have back' := Nat.le_trans (weight_reset_le v) room'
      exact .ok ⟨rfl, opens.resets bad reason, back, back'⟩
  · rw [attempt_failed left ran, (opens.first bad).1, if_pos rfl]
    exact .first (opens.first bad).2

variable {x : Rule S Surface.Expr} {x' : Rule T Surface.Expr}

theorem Lock.closedGenerics (lock : Lock place plain F P P)
    (typed : ∀ kind ∈ typeKinds, plain kind) (keeps : Keeps F P x x') :
    Keeps F P (closedGenerics x) (closedGenerics x') := by
  apply keeps_of_within
  intro s₀ t₀
  have lock' := lock.below s₀ t₀
  have keeps' := keeps.below s₀ t₀
  apply ((lock.restrict s₀ t₀).expect (typed _ (by decide))).bind
  intro _ _
  refine Carries.from ?_ fun _ _ opened => opened.2.2
  apply keeps'.carries.andThen
  intro first
  apply (lock'.afterCommas (typed _ (by decide)) keeps').carries.andThen
  intro others
  apply (lock'.expect (typed _ (by decide))).bind
  intro _ _
  exact Carries.pure fun _ _ closed => ⟨rfl, below_within closed.2.2⟩

theorem Lock.genericsOf (lock : Lock place plain F P P)
    (tries : Keeps F P (attempt (Grammar.closedGenerics x)) (attempt (Grammar.closedGenerics x'))) :
    Keeps F P (genericsAfterName x) (genericsAfterName x') := by
  apply keeps_of_within
  intro s₀ t₀
  apply (lock.restrict s₀ t₀).isNext.bind
  intro a b s t found
  obtain ⟨rfl, start, -⟩ := found
  cases a with
  | true => exact tries.within s₀ t₀ s t start
  | false => exact .ok ⟨rfl, start⟩

theorem Lock.typeStep_sealed (lock : Lock place plain F P P) (shut : Sealed P)
    (typed : ∀ kind ∈ typeKinds, plain kind) (s₀ : S) (t₀ : T) {k : Unit → Rule S Surface.Expr}
    {k' : Unit → Rule T Surface.Expr} (keeps : ∀ j, Keeps F (Grammar.below P s₀ t₀) (k j) (k' j)) :
    Carries F (within P s₀ t₀) (same (within P s₀ t₀)) (typeStep k ()) (typeStep k' ()) := by
  have lock' := lock.below s₀ t₀
  have shut' : Sealed (Grammar.below P s₀ t₀) := fun s t passed => shut s t passed.1
  apply ((lock.restrict s₀ t₀).identifier (typed _ (by decide))).andThen
  intro name
  refine (lock'.genericsOf (shut'.attempt (lock'.closedGenerics typed (keeps ())))).carries.andThen
    fun generics => ?_
  exact Carries.pure fun _ _ passed => ⟨rfl, below_within passed⟩

theorem Lock.typeExpr_sealed (lock : Lock place plain F P P) (shut : Sealed P)
    (typed : ∀ kind ∈ typeKinds, plain kind) : Keeps F P typeExpr typeExpr :=
  keeps_recurse (P := fun _ : Unit => P)
    (fun s₀ t₀ _ _ keeps _ _ => lock.typeStep_sealed shut typed s₀ t₀ (keeps ())) () ()

theorem Opens.generics (opens : Opens F P F' P') (lock : Lock place plain F' P' P')
    (typed : ∀ kind ∈ typeKinds, plain kind) {s : S} {t : T} (start : P s t)
    (keeps : Keeps (F'.roomed (weight s) (weight t)) (roomed P' (weight s) (weight t)) x x') :
    Agree F (same (within P s t)) (Grammar.attempt (closedGenerics x) F.eof s)
      (Grammar.attempt (closedGenerics x') F.eof' t) :=
  opens.attempt start ((lock.roomed _ _).closedGenerics typed keeps).carries

-- Types may be tried: either a position is remembered already, or one will be.
def Attempts (place : Span → Span → Prop) (plain : TokenKind → Prop) (F : Faults S T)
    (P : S → T → Prop) : Prop :=
  Sealed P ∨ ∃ F' P', Opens F P F' P' ∧ Lock place plain F' P' P' ∧ Sealed P'

theorem Sealed.roomed (shut : Sealed P) (m n : Nat) : Sealed (roomed P m n) :=
  fun s t kept => shut s t kept.1

theorem Lock.generics (lock : Lock place plain F P P) (attempts : Attempts place plain F P)
    (typed : ∀ kind ∈ typeKinds, plain kind) :
    Keeps F P (genericsAfterName typeExpr) (genericsAfterName typeExpr) := by
  rcases attempts with shut | ⟨F', P', opens, lock', shut⟩
  · exact lock.genericsOf (shut.attempt (lock.closedGenerics typed (lock.typeExpr_sealed shut typed)))
  · exact lock.genericsOf fun s t start => opens.generics lock' typed start
      ((lock'.roomed _ _).typeExpr_sealed (shut.roomed _ _) typed)

-- The type step where attempts open, with recursive uses that do the same in an attempt.
theorem Lock.typeStep_opened (lock : Lock place plain F P P) (opens : Opens F P F' P')
    (lock' : Lock place plain F' P' P') (typed : ∀ kind ∈ typeKinds, plain kind) {s : S} {t : T}
    (start : P s t) {k : Unit → Rule S Surface.Expr} {k' : Unit → Rule T Surface.Expr}
    (keeps : ∀ m n, m < weight s → n < weight t →
      Keeps (F'.roomed m n) (Grammar.roomed P' m n) (k ()) (k' ())) :
    Agree F (same (within P s t)) (typeStep k () F.eof s) (typeStep k' () F.eof' t) := by
  refine Carries.andThen ((lock.restrict s t).identifier (typed _ (by decide))) (fun name => ?_)
    s t ⟨start, Nat.le_refl _, Nat.le_refl _⟩
  refine ((lock.below s t).genericsOf fun u v passed => ?_).carries.andThen fun generics =>
    Carries.pure fun _ _ passed => ⟨rfl, below_within passed⟩
  -- The attempt starts behind the name.
  refine (opens.generics lock' typed passed.1 (keeps _ _ passed.2.1 passed.2.2)).mono
    fun a b u' v' good => ⟨good.1, good.2.trans_below passed, good.2.2⟩

theorem Lock.typeExpr (lock : Lock place plain F P P) (attempts : Attempts place plain F P)
    (typed : ∀ kind ∈ typeKinds, plain kind) : Keeps F P typeExpr typeExpr := by
  rcases attempts with shut | ⟨F', P', opens, lock', shut⟩
  · exact lock.typeExpr_sealed shut typed
  · intro s t start
    rw [Grammar.typeExpr, Grammar.typeExpr, recurse, recurse]
    refine lock.typeStep_opened opens lock' typed start fun m n small small' u v kept => ?_
    have passed : weight u < weight s ∧ weight v < weight t := by
      have := weight_le_room u
      have := weight_le_room v
      have := kept.2
      omega
    simp only [passed.1, passed.2, if_true]
    exact (lock'.roomed _ _).typeExpr_sealed (shut.roomed _ _) typed u v kept

end Types

end Frontend.Grammar
