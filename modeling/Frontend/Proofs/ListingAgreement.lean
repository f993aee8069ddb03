import Frontend.Proofs.Feed
import Frontend.Proofs.Listed

-- Reading a tree and listing the tokens bring up the same.  A stream that is read is put beside the feed of
-- what a listing brings up.  Both keep in step through strings and segments, because the reader of expressions
-- leaves a segment where the listing finds its braces even.

namespace Frontend

open Grammar TokenSource

-- No brace is open in any of the segments.
abbrev flat (depth : Nat) : List Nat := List.replicate depth 0

theorem commit_free {s : TokenStream} (free : s.journal = none) : s.commit = s := by
  obtain ⟨_, _, _⟩ := s
  cases free
  rfl

theorem track_ordinary {σ : Type} [TokenSource σ] {t : Token} (ordinary : Ordinary t.kind)
    (segments : List Nat) (s : σ) : track segments t s = .ok segments s := by
  obtain ⟨noText, noOpening, noClosing⟩ := ordinary
  unfold track
  split <;> first | rfl | contradiction

theorem track_outside {σ : Type} [TokenSource σ] {t : Token} (noText : t.kind ≠ .stringText) (s : σ) :
    track [] t s = .ok [] s := by
  unfold track
  split <;> first | rfl | contradiction

theorem typeKinds_ordinary : ∀ kind ∈ typeKinds, Ordinary kind := by decide

theorem front_listed {segments : List Nat} {s s' : TokenStream} {a : Option Token}
    {ahead : List Answer} (looked : s.peek 0 = .ok a s') (listed : Listed segments s' ahead)
    (journal : Option (List Token)) : Feed.peek 0 ⟨ahead, journal⟩ = .ok a ⟨ahead, journal⟩ := by
  obtain ⟨s'', took⟩ := TokenStream.consume_of_peek looked
  cases a with
  | none =>
    rw [listed.none took]
    rfl
  | some t =>
    obtain ⟨rest, rfl, -⟩ := listed.next took
    rfl

-- Tokens of types that are put back come up again.
theorem listed_put_back {segments : List Nat} {ts : List Token} {r : Reader} {lookahead : List Token}
    {ahead : List Answer} (typed : ∀ t ∈ ts, t.kind ∈ typeKinds)
    (listed : Listed segments (⟨r, lookahead, none⟩ : TokenStream) ahead) :
    Listed segments (⟨r, ts ++ lookahead, none⟩ : TokenStream) (ts.map .ok ++ ahead) := by
  induction ts with
  | nil => exact listed
  | cons t ts ih =>
    have later := ih fun u within => typed u (List.mem_cons_of_mem _ within)
    have taken : TokenSource.take (⟨r, t :: ts ++ lookahead, none⟩ : TokenStream) =
        .ok (some t) ⟨r, ts ++ lookahead, none⟩ := TokenStream.consume_cons rfl
    refine .token taken (track_ordinary ?_ _ _) later
    exact typeKinds_ordinary _ (typed t List.mem_cons_self)

-- What was taken and what is to come make up the listing, and segments were left where they can be.
structure Kept (whole : List Answer) (o : Observed) (f : Feed) : Prop where
  whole : o.taken.map .ok ++ f.ahead = whole
  clean : ∀ s ∈ o.left, s.Ready

structure Level (whole : List Answer) (depth : Nat) (o : Observed) (f : Feed) : Prop
    extends Kept whole o f where
  stands : o.stream.Stands depth
  listed : Listed (flat depth) o.stream.commit f.ahead

variable {whole : List Answer} {depth : Nat} {o : Observed} {f : Feed}

theorem error_mem {e : Located LexicalError} {rest : List Answer}
    (all : o.taken.map .ok ++ f.ahead = whole) (next : f.ahead = .error e :: rest) : .error e ∈ whole := by
  rw [← all, next]
  simp

-- Both sources answer alike, wherever the stream may stand.
structure Along (whole : List Answer) (depth : Nat) (o : Observed) (f : Feed) : Prop where
  whole : o.taken.map .ok ++ f.ahead = whole
  listed : Listed (flat depth) o.stream.commit f.ahead

theorem Along.look (along : Along whole depth o f) :
    (∃ e o' f', look o = .error e o' ∧ look f = .error e f' ∧ .error e ∈ whole ∧ o'.left = o.left) ∨
    ∃ a s, o.stream.peek 0 = .ok a s ∧ look o = .ok a { o with stream := s } ∧ look f = .ok a f ∧
      Along whole depth { o with stream := s } f ∧ s.journal = o.stream.journal := by
  have shown := TokenStream.peek_commit o.stream
  rcases o.stream.peek_front with ⟨e, s, looked, took⟩ | ⟨a, s, looked, again, journal, -⟩
  · have failed : take o.stream.commit = .error e s.commit := by
      have shown := TokenStream.consume_commit o.stream
      rw [took] at shown
      exact shown.symm
    have ended := along.listed.error failed
    obtain ⟨ahead, j⟩ := f
    cases ended
    refine .inl ⟨e, { o with stream := s }, ⟨[], j⟩, ?_, rfl, error_mem along.whole rfl, rfl⟩
    simp only [TokenSource.look, Observed.look, looked, seen]
  · rw [looked] at shown
    have listed : Listed (flat depth) s.commit f.ahead := along.listed.congr <| by
      have one := TokenStream.consume_commit o.stream
      have other := TokenStream.consume_commit s
      rw [again] at other
      exact other.symm.trans one
    refine .inr ⟨a, s, looked, ?_, front_listed shown.symm listed _, ⟨along.whole, listed⟩, journal⟩
    simp only [TokenSource.look, Observed.look, looked, seen]

-- One token was taken on both sides.
structure Moves (whole : List Answer) (depth : Nat) (t : Token) (o o' : Observed) (f f' : Feed) : Prop where
  whole : o'.taken.map .ok ++ f'.ahead = whole
  goes : Goes (track (flat depth) t o'.stream.commit) f'.ahead
  journal : o'.stream.journal = o.stream.journal.map (t :: ·)
  journal' : f'.journal = f.journal.map (t :: ·)
  taken : o'.taken = o.taken ++ [t]

theorem Along.take (along : Along whole depth o f) :
    (∃ e o' f', take o = .error e o' ∧ take f = .error e f' ∧ .error e ∈ whole ∧ o'.left = o.left) ∨
    (∃ s, o.stream.consume 0 = .ok none s ∧ take o = .ok none { o with stream := s } ∧
      take f = .ok none f ∧ Along whole depth { o with stream := s } f ∧ s.journal = o.stream.journal) ∨
    ∃ t s f', o.stream.consume 0 = .ok (some t) s ∧
      take o = .ok (some t) { o with stream := s, taken := o.taken ++ [t] } ∧ take f = .ok (some t) f' ∧
      Moves whole depth t o { o with stream := s, taken := o.taken ++ [t] } f f' := by
  have shown := TokenStream.consume_commit o.stream
  have journal := TokenStream.consume_journal o.stream
  obtain ⟨ahead, j⟩ := f
  rcases took : o.stream.consume 0 with ⟨_ | t, s⟩ | ⟨e, s⟩ <;> rw [took] at shown journal
  · have ended := along.listed.none shown.symm
    cases ended
    have taken : TokenSource.take o = .ok none { o with stream := s } := by
      simp only [TokenSource.take, Observed.take, took, Option.toList_none, List.append_nil]
    obtain ⟨journal, again⟩ := journal
    have done := TokenStream.consume_commit s
    rw [again] at done
    exact .inr (.inl ⟨s, rfl, taken, Feed.consume_nil, ⟨along.whole, .ended done.symm⟩, journal⟩)
  · obtain ⟨rest, same, goes⟩ := along.listed.next shown.symm
    cases same
    have taken : TokenSource.take o = .ok (some t) { o with stream := s, taken := o.taken ++ [t] } := by
      simp only [TokenSource.take, Observed.take, took, Option.toList_some]
    refine .inr (.inr ⟨t, s, _, rfl, taken, Feed.consume_ok, ?_, goes, journal, rfl, rfl⟩)
    simp only [← along.whole, List.map_append, List.map_cons, List.map_nil, List.append_assoc,
      List.cons_append, List.nil_append]
  · have ended := along.listed.error shown.symm
    cases ended
    have failed : TokenSource.take o = .error e { o with stream := s } := by
      simp only [TokenSource.take, Observed.take, took]
    exact .inl ⟨e, _, _, failed, Feed.consume_error, error_mem along.whole rfl, rfl⟩

theorem Level.along (level : Level whole depth o f) : Along whole depth o f := ⟨level.whole, level.listed⟩

theorem Level.look (level : Level whole depth o f) :
    (∃ e o' f', look o = .error e o' ∧ look f = .error e f' ∧ .error e ∈ whole ∧ o'.left = o.left) ∨
    ∃ a o', look o = .ok a o' ∧ look f = .ok a f ∧ Level whole depth o' f ∧
      o'.stream.journal = o.stream.journal ∧ o'.taken = o.taken := by
  have stands := level.stands.peek
  rcases level.along.look with failed | ⟨a, s, peeked, looked, looked', along, journal⟩
  · exact .inl failed
  · rw [peeked] at stands
    exact .inr ⟨a, _, looked, looked', ⟨⟨along.whole, level.clean⟩, stands, along.listed⟩, journal, rfl⟩

structure Passed (listing : List Answer) (depth : Nat) (t : Token) (o o' : Observed) (f f' : Feed) :
    Prop extends Kept listing o' f', Moves listing depth t o o' f f' where
  place : o'.stream.At depth t.kind ∨ t.kind ∈ typeKinds ∧ o'.stream.Stands depth

theorem Level.take (level : Level whole depth o f) :
    (∃ e o' f', take o = .error e o' ∧ take f = .error e f' ∧ .error e ∈ whole ∧ o'.left = o.left) ∨
    (∃ o', take o = .ok none o' ∧ take f = .ok none f ∧ Level whole depth o' f ∧
      o'.stream.journal = o.stream.journal ∧ o'.taken = o.taken) ∨
    ∃ t o' f', take o = .ok (some t) o' ∧ take f = .ok (some t) f' ∧ Passed whole depth t o o' f f' := by
  have stands := level.stands.consume
  rcases level.along.take with failed | ⟨s, consumed, took, took', along, journal⟩ |
      ⟨t, s, f', consumed, took, took', moves⟩
  · exact .inl failed
  · rw [consumed] at stands
    exact .inr (.inl ⟨_, took, took', ⟨⟨along.whole, level.clean⟩, stands, along.listed⟩, journal, rfl⟩)
  · rw [consumed] at stands
    exact .inr (.inr ⟨t, _, f', took, took', ⟨moves.whole, level.clean⟩, moves.goes, moves.journal,
      moves.journal', moves.taken, stands⟩)

-- The tokens since a remembered position are tokens of types, and both sources can put them back.
def Returnable (o : Observed) (f : Feed) : Prop :=
  ∃ j before, o.stream.journal = some j ∧ f.journal = some j ∧ (∀ t ∈ j, t.kind ∈ typeKinds) ∧
    o.taken = before ++ j.reverse

theorem Returnable.begin {ahead : List Answer} :
    Returnable { o with stream := { o.stream with journal := some [] } } ⟨ahead, some []⟩ :=
  ⟨[], o.taken, rfl, rfl, List.forall_mem_nil _, (List.append_nil _).symm⟩

theorem Returnable.kept {o' : Observed} (back : Returnable o f)
    (journal : o'.stream.journal = o.stream.journal) (taken : o'.taken = o.taken) : Returnable o' f := by
  obtain ⟨j, before, held, held', typed, same⟩ := back
  exact ⟨j, before, journal.trans held, held', typed, taken.trans same⟩

theorem Moves.returnable {t : Token} {o' : Observed} {f' : Feed} (moves : Moves whole depth t o o' f f')
    (back : Returnable o f) (one : t.kind ∈ typeKinds) : Returnable o' f' := by
  obtain ⟨j, before, held, held', typed, taken⟩ := back
  refine ⟨t :: j, before, ?_, ?_, ?_, ?_⟩
  · rw [moves.journal, held]; rfl
  · rw [moves.journal', held']; rfl
  · intro u within
    rcases List.mem_cons.1 within with rfl | within
    · exact one
    · exact typed u within
  · rw [moves.taken, taken, List.reverse_cons, List.append_assoc]

-- What is put back is taken no more, and comes up again.
theorem Along.reset (along : Along whole depth o f) (back : Returnable o f) :
    Along whole depth (TokenSource.reset o) (TokenSource.reset f) := by
  obtain ⟨j, before, held, held', typed, taken⟩ := back
  obtain ⟨ahead, _⟩ := f
  cases held'
  constructor
  · have whole := along.whole
    rw [taken] at whole
    simp only [TokenSource.reset, Observed.reset, Feed.reset, held, taken, Option.getD_some,
      List.length_append, List.length_reverse, Nat.add_sub_cancel, List.take_left']
    rw [← whole, List.map_append, List.append_assoc]
  · have typed' : ∀ t ∈ j.reverse, t.kind ∈ typeKinds := fun t within =>
      typed t (List.mem_reverse.1 within)
    have back := listed_put_back typed' along.listed
    simp only [TokenSource.reset, Observed.reset, Feed.reset, TokenStream.reset, held, Option.getD_some]
    exact back

-- Both sources stand in `depth` segments, with no position remembered.
structure Even (whole : List Answer) (depth : Nat) (o : Observed) (f : Feed) : Prop
    extends Level whole depth o f where
  free : o.stream.journal = none
  free' : f.journal = none

-- The same during an attempt, which takes tokens of types only.
structure Trying (whole : List Answer) (depth : Nat) (o : Observed) (f : Feed) : Prop
    extends Level whole depth o f where
  held : Returnable o f

-- Both runs fail alike.  A lexical error is the one of the listing, and where the tokens are no program,
-- what was taken and what is to come still make up the listing.
def evenFaults (eof : Span) (whole : List Answer) : Faults Observed Feed where
  eof := eof
  eof' := eof
  both e e' o f := e = e' ∧ (∀ error, e = .lexical error → .error error ∈ whole) ∧
    (∀ s ∈ o.left, s.Ready) ∧ (e.isLexical = false → Kept whole o f)
  first _ _ := False

def tryingFaults (eof : Span) (whole : List Answer) (depth : Nat) : Faults Observed Feed where
  eof := eof
  eof' := eof
  both e e' o f := (evenFaults eof whole).both e e' o f ∧ (e.isLexical = false → Trying whole depth o f)
  first _ _ := False

variable {eof : Span} {e : ReadError}

theorem Kept.fails (kept : Kept whole o f) (grammatical : e.isLexical = false) :
    (evenFaults eof whole).both e e o f := by
  refine ⟨rfl, ?_, kept.clean, fun _ => kept⟩
  intro error equal
  subst equal
  cases grammatical

theorem fails_lexical {error : Located LexicalError} {o' : Observed} (kept : Kept whole o f)
    (listed : .error error ∈ whole) (left : o'.left = o.left) (f' : Feed) :
    (evenFaults eof whole).both (.lexical error) (.lexical error) o' f' := by
  refine ⟨rfl, ?_, left ▸ kept.clean, nofun⟩
  intro _ same
  cases same
  exact listed

-- Behind a token that the listing passes by, both sources stand as deep as before.
theorem Passed.level {t : Token} {o' : Observed} {f' : Feed} (passed : Passed whole depth t o o' f f')
    (noText : t.kind ≠ .stringText)
    (passedBy : track (flat depth) t o'.stream.commit = .ok (flat depth) o'.stream.commit) :
    Level whole depth o' f' := by
  have goes := passed.goes
  rw [passedBy] at goes
  refine ⟨passed.toKept, ?_, goes⟩
  rcases passed.place with behind | typed
  · exact behind.stands noText
  · exact typed.2

theorem Passed.even {t : Token} {o' : Observed} {f' : Feed} (passed : Passed whole depth t o o' f f')
    (even : Even whole depth o f) (level : Level whole depth o' f') : Even whole depth o' f' := by
  refine ⟨level, ?_, ?_⟩
  · rw [passed.journal, even.free]
    rfl
  · rw [passed.journal', even.free']
    rfl

theorem even_lock : Lock Eq (· ∈ typeKinds) (evenFaults eof whole) (Even whole depth) (Even whole depth) where
  look o f even := by
    unfold current ofStep
    rcases even.toLevel.look with ⟨e, o', f', looked, looked', listed, left⟩ |
        ⟨a, o', looked, looked', level, journal, -⟩ <;> rw [looked, looked']
    · exact .failed (fails_lexical even.toKept listed left f')
    · exact .ok ⟨alike_refl a, level, journal.trans even.free, even.free'⟩
  take o f even := by
    unfold ofStep
    rcases even.toLevel.take with ⟨e, o', f', took, took', listed, left⟩ |
        ⟨o', took, took', level, journal, -⟩ | ⟨t, o', f', took, took', passed⟩ <;> rw [took, took']
    · exact .failed (fails_lexical even.toKept listed left f')
    · exact .ok ⟨level, journal.trans even.free, even.free'⟩
    · refine .ok ⟨⟨rfl, rfl, rfl, rfl⟩, fun typed => ?_⟩
      have ordinary := typeKinds_ordinary _ typed
      exact passed.even even (passed.level ordinary.1 (track_ordinary ordinary _ _))
  fault even near e _ := by
    subst near
    exact even.fails rfl
  ended even := even.fails rfl

theorem trying_lock :
    Lock Eq (· ∈ typeKinds) (tryingFaults eof whole depth) (Trying whole depth) (Trying whole depth) where
  look o f trying := by
    unfold current ofStep
    rcases trying.toLevel.look with ⟨e, o', f', looked, looked', listed, left⟩ |
        ⟨a, o', looked, looked', level, journal, same⟩ <;> rw [looked, looked']
    · exact .failed ⟨fails_lexical trying.toKept listed left f', nofun⟩
    · exact .ok ⟨alike_refl a, level, trying.held.kept journal same⟩
  take o f trying := by
    unfold ofStep
    rcases trying.toLevel.take with ⟨e, o', f', took, took', listed, left⟩ |
        ⟨o', took, took', level, journal, same⟩ | ⟨t, o', f', took, took', passed⟩ <;> rw [took, took']
    · exact .failed ⟨fails_lexical trying.toKept listed left f', nofun⟩
    · exact .ok ⟨level, trying.held.kept journal same⟩
    · refine .ok ⟨⟨rfl, rfl, rfl, rfl⟩, fun one => ?_⟩
      have ordinary := typeKinds_ordinary _ one
      exact ⟨passed.level ordinary.1 (track_ordinary ordinary _ _),
        passed.toMoves.returnable trying.held one⟩
  fault trying near e _ := by
    subst near
    exact ⟨trying.fails rfl, fun _ => trying⟩
  ended trying := ⟨trying.fails rfl, fun _ => trying⟩

theorem trying_sealed : Sealed (Trying whole depth) := by
  intro o f trying
  obtain ⟨j, before, held, held', -, -⟩ := trying.held
  obtain ⟨_, _⟩ := f
  cases held'
  refine ⟨?_, rfl⟩
  simp only [TokenSource.begin?, Observed.begin?, TokenStream.begin?, held, Option.map_none]

theorem Trying.reset (trying : Trying whole depth o f) :
    Even whole depth (TokenSource.reset o) (TokenSource.reset f) := by
  have back := trying.along.reset trying.held
  obtain ⟨j, -, held, -, typed, -⟩ := trying.held
  exact ⟨⟨⟨back.whole, trying.clean⟩, trying.stands.reset (by rw [held]; exact typed), back.listed⟩, rfl, rfl⟩

theorem even_opens : Opens (evenFaults eof whole) (Even whole depth) (tryingFaults eof whole depth)
    (Trying whole depth) where
  eof := rfl
  eof' := rfl
  begins {o f} even := by
    obtain ⟨ahead, _⟩ := f
    cases even.free'
    refine ⟨{ o with stream := { o.stream with journal := some [] } }, ⟨ahead, some []⟩, ?_, rfl, ?_⟩
    · simp only [TokenSource.begin?, Observed.begin?, TokenStream.begin?, even.free, Option.map_some]
    · exact ⟨⟨⟨even.whole, even.clean⟩, even.stands, even.listed⟩, .begin⟩
  commits trying := ⟨⟨⟨trying.whole, trying.clean⟩, trying.stands, trying.listed⟩, rfl, rfl⟩
  alike bad := congrArg _ bad.1.1
  fails bad lexical := ⟨bad.1.1, bad.1.2.1, bad.1.2.2.1, fun no => by rw [no] at lexical; cases lexical⟩
  resets bad grammatical := (bad.2 grammatical).reset
  first bad := bad.elim

structure Opening (whole : List Answer) (depth : Nat) (o : Observed) (f : Feed) : Prop
    extends Kept whole o f where
  behind : o.stream.At depth .stringText
  goes : Goes (afterText (flat depth) o.stream) f.ahead
  free : o.stream.journal = none
  free' : f.journal = none

structure Closing (whole : List Answer) (depth : Nat) (o : Observed) (f : Feed) : Prop
    extends Kept whole o f where
  behind : o.stream.At (depth + 1) .rightBrace
  goes : ∀ {s}, o.stream.resumeText = .ok () s → Listed (flat depth) s f.ahead
  free : o.stream.journal = none
  free' : f.journal = none

theorem track_text {σ : Type} [TokenSource σ] {t : Token} (text : t.kind = .stringText)
    (segments : List Nat) (s : σ) : track segments t s = afterText segments s := by
  simp only [track, text]

theorem track_close {σ : Type} [TokenSource σ] {t : Token} (closes : t.kind = .rightBrace)
    {outer : List Nat} {s s' : σ} (resumed : resumeText s = .ok () s') :
    track (0 :: outer) t s = .ok outer s' := by
  simp only [track, closes, resumed]

theorem Passed.lands {t : Token} {o' : Observed} {f' : Feed}
    (passed : Passed whole depth t o o' f f') (even : Even whole depth o f) :
    Lands (Even whole) (Opening whole) (Closing whole) depth t.kind o' f' := by
  have free : o'.stream.journal = none := by rw [passed.journal, even.free]; rfl
  have free' : f'.journal = none := by rw [passed.journal', even.free']; rfl
  have goes := passed.goes
  rw [commit_free free] at goes
  have behind (brace : t.kind ∉ typeKinds) : o'.stream.At depth t.kind :=
    passed.place.resolve_right fun typed => brace typed.1
  by_cases text : t.kind = .stringText
  · rw [track_text text] at goes
    have behind := behind (by rw [text]; decide)
    rw [text] at behind ⊢
    cases depth <;> exact ⟨passed.toKept, behind, goes, free, free'⟩
  · cases depth with
    | zero =>
      rw [lands_outside text]
      exact passed.even even (passed.level text (track_outside text _))
    | succ depth =>
      by_cases closes : t.kind = .rightBrace
      · have behind := behind (by rw [closes]; decide)
        rw [closes] at behind ⊢
        refine ⟨passed.toKept, behind, fun resumed => ?_, free, free'⟩
        rw [show flat (depth + 1) = 0 :: flat depth from rfl, track_close closes resumed] at goes
        exact goes
      · by_cases opens : t.kind = .leftBrace
        · rw [opens]
          trivial
        · have ordinary : Ordinary t.kind := ⟨text, opens, closes⟩
          rw [lands_ordinary ordinary]
          exact passed.even even (passed.level text (track_ordinary ordinary _ _))

-- What follows a text is looked at alike, and tells in how many segments both sources are.
theorem look_behind (all : o.taken.map .ok ++ f.ahead = whole)
    (goes : Goes (afterText (flat depth) o.stream.commit) f.ahead) :
    (∃ e o' f', look o = .error e o' ∧ look f = .error e f' ∧ .error e ∈ whole ∧ o'.left = o.left) ∨
    ∃ a s, o.stream.peek 0 = .ok a s ∧ look o = .ok a { o with stream := s } ∧ look f = .ok a f ∧
      s.journal = o.stream.journal ∧
      if a.map Token.kind = some .stringEnd then Along whole depth { o with stream := s } f
      else Along whole (depth + 1) { o with stream := s } f := by
  have shown := TokenStream.peek_commit o.stream
  obtain ⟨ahead, j⟩ := f
  simp only [afterText, TokenSource.look] at goes
  rcases o.stream.peek_front with ⟨e, s, looked, -⟩ | ⟨a, s, looked, -, journal, -⟩ <;>
    rw [looked] at shown <;> rw [← shown] at goes
  · cases goes
    refine .inl ⟨e, { o with stream := s }, ⟨[], j⟩, ?_, rfl, error_mem all rfl, rfl⟩
    simp only [TokenSource.look, Observed.look, looked, seen]
  · refine .inr ⟨a, s, looked, ?_⟩
    have seen : look o = .ok a { o with stream := s } := by
      simp only [TokenSource.look, Observed.look, looked, seen]
    by_cases ends : a.map Token.kind = some .stringEnd <;>
      simp only [Frontend.seen, ends, if_true, if_false] at goes ⊢ <;>
      exact ⟨seen, front_listed shown.symm goes j, journal, all, goes⟩

theorem even_afterText : Carries (evenFaults eof whole) (Opening whole depth)
    (fun a b o f => Option.Rel (Alike Eq) a b ∧
      if a.map Token.kind = some .stringEnd then Even whole depth o f else Even whole (depth + 1) o f)
    current current := by
  intro o f opening
  have stands := opening.behind.afterText
  have goes := opening.goes
  rw [← commit_free opening.free] at goes
  unfold current ofStep
  rcases look_behind opening.whole goes with ⟨e, o', f', looked, looked', listed, left⟩ |
      ⟨a, s, peeked, looked, looked', journal, along⟩ <;> rw [looked, looked']
  · exact .failed (fails_lexical opening.toKept listed left f')
  · rw [peeked] at stands
    have even {depth : Nat} (stands : s.Stands depth) (along : Along whole depth { o with stream := s } f) :
        Even whole depth { o with stream := s } f :=
      ⟨⟨⟨along.whole, opening.clean⟩, stands, along.listed⟩, journal.trans opening.free, opening.free'⟩
    refine .ok ⟨alike_refl a, ?_⟩
    by_cases ends : a.map Token.kind = some .stringEnd <;>
      simp only [ends, if_true, if_false] at along stands ⊢ <;> exact even stands along

theorem even_resume : Carries (evenFaults eof whole) (Closing whole depth) (same (Even whole depth))
    (ofStep resumeText) (ofStep resumeText) := by
  intro o f closing
  obtain ⟨s, left, stands, journal⟩ := closing.behind.resume
  have free := journal.trans closing.free
  have resumed : TokenSource.resumeText o = .ok () { o with stream := s, left := o.stream :: o.left } := by
    simp only [TokenSource.resumeText, Observed.resumeText, left, seen]
  unfold ofStep
  rw [resumed]
  refine .ok ⟨rfl, ⟨⟨⟨closing.whole, ?_⟩, stands, ?_⟩, free, closing.free'⟩⟩
  · intro s within
    rcases List.mem_cons.1 within with rfl | within
    · exact closing.behind.ready
    · exact closing.clean s within
  · rw [commit_free free]
    exact closing.goes left

theorem even_attempts : Attempts Eq (· ∈ typeKinds) (evenFaults eof whole) (Even whole depth) :=
  .inr ⟨_, _, even_opens, trying_lock, trying_sealed⟩

-- A stream that is read and the feed of its listing move in step.
theorem even_weave : Weave Eq (evenFaults eof whole) (Even whole) (Even whole) (Opening whole)
    (Closing whole) where
  look _ := even_lock.look
  take depth o f even := by
    unfold ofStep
    rcases even.toLevel.take with ⟨e, o', f', took, took', listed, left⟩ |
        ⟨o', took, took', level, journal, -⟩ | ⟨t, o', f', took, took', passed⟩ <;> rw [took, took']
    · exact .failed (fails_lexical even.toKept listed left f')
    · exact .ok ⟨level, journal.trans even.free, even.free'⟩
    · exact .ok ⟨⟨rfl, rfl, rfl, rfl⟩, passed.lands even, fun _ _ => passed.toKept.fails rfl⟩
  fault := even_lock.fault
  ended := even_lock.ended
  afterText _ := even_afterText
  resume _ := even_resume
  generics start _ := even_lock.generics even_attempts (fun _ typed => typed) _ _ start

theorem even_ground : Ground Eq (evenFaults eof whole) (Even whole 0) where
  lock := even_weave.outside
  expr := even_weave.expr 0
  type := even_lock.typeExpr even_attempts fun _ typed => typed

end Frontend
