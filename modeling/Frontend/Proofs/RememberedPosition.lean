import Frontend.Proofs.ProgramReading
import Frontend.Proofs.TypeArguments

-- Reading while a position is remembered already.  No attempt can remember another one then, so that type
-- arguments that cannot be read make the whole run fail.  The run with the position and the one without it are
-- both put beside the feed of one listing, on which attempts can be given up.  The stream may stand anywhere,
-- also inside of a string, so that nothing is known of the segments it is in.

namespace Frontend

open Grammar TokenSource Surface

-- Among the answers is a name with a `<` behind it that opens no closed list of types.
def OpenList (whole : List Answer) : Prop :=
  ∃ before name less rest, whole = (before ++ [name]).map .ok ++ .ok less :: rest ∧
    name.kind = .identifier ∧ less.kind = .less ∧ ∀ args behind, ¬ Begins args behind (.ok less :: rest)

-- Both runs fail alike, or the one on the stream fails alone.  That happens where an error is listed or,
-- with a remembered position, behind an unclosed list.
def abreastFaults (eof : Span) (held : Bool) (whole : List Answer) : Faults Observed Feed where
  eof := eof
  eof' := eof
  both e e' _ _ := e = e'
  first _ _ := (∃ e, .error e ∈ whole) ∨ held = true ∧ OpenList whole

-- The stream remembers a position just if `held`, the feed none.
structure Remembers (held : Bool) (o : Observed) (f : Feed) : Prop where
  journal : o.stream.journal.isSome = held
  free' : f.journal = none

-- The stream and the feed side by side.
structure Abreast (held : Bool) (Seen : List Token → Prop) (whole : List Answer) (depth : Nat)
    (o : Observed) (f : Feed) : Prop extends Along whole depth o f, Remembers held o f where
  seen : Seen o.taken

variable {eof : Span} {held : Bool} {whole : List Answer} {depth : Nat} {o o' : Observed} {f f' : Feed}

theorem Remembers.kept (remembers : Remembers held o f)
    (journal : o'.stream.journal = o.stream.journal) : Remembers held o' f :=
  ⟨(congrArg _ journal).trans remembers.journal, remembers.free'⟩

theorem Remembers.moved {t : Token} (remembers : Remembers held o f) (moves : Moves whole depth t o o' f f') :
    Remembers held o' f' := by
  constructor
  · rw [moves.journal, Option.isSome_map]
    exact remembers.journal
  · rw [moves.journal', remembers.free']
    rfl

section Steps

variable {F : Faults Observed Feed} {Q : Option Token → Option Token → Observed → Feed → Prop}

-- Whatever else relates the two sources, they answer alike or meet the same error.
theorem Along.looks (along : Along whole depth o f)
    (fails : ∀ e o' f', F.both (.lexical e) (.lexical e) o' f')
    (kept : ∀ a s, Along whole depth { o with stream := s } f → s.journal = o.stream.journal →
      Q a a { o with stream := s } f) : Agree F Q (current F.eof o) (current F.eof' f) := by
  unfold current ofStep
  rcases along.look with ⟨e, o', f', looked, looked', -, -⟩ | ⟨a, s, -, looked, looked', along, journal⟩ <;>
    rw [looked, looked']
  · exact .failed (fails e o' f')
  · exact .ok (kept a s along journal)

theorem Along.takes (along : Along whole depth o f)
    (fails : ∀ e o' f', F.both (.lexical e) (.lexical e) o' f')
    (kept : ∀ s, Along whole depth { o with stream := s } f → s.journal = o.stream.journal →
      Q none none { o with stream := s } f)
    (moved : ∀ t o' f', Moves whole depth t o o' f f' → Q (some t) (some t) o' f') :
    Agree F Q (ofStep TokenSource.take F.eof o) (ofStep TokenSource.take F.eof' f) := by
  unfold ofStep
  rcases along.take with ⟨e, o', f', took, took', -, -⟩ | ⟨s, -, took, took', along, journal⟩ |
      ⟨t, s, f', -, took, took', moves⟩ <;> rw [took, took']
  · exact .failed (fails e o' f')
  · exact .ok (kept s along journal)
  · exact .ok (moved t _ f' moves)

end Steps

section Tokens

variable {Seen Later : List Token → Prop}

theorem Abreast.any (abreast : Abreast held Seen whole depth o f) : Abreast held Any whole depth o f :=
  { abreast with seen := trivial }

theorem Abreast.moved {t : Token} (abreast : Abreast held Seen whole depth o f)
    (moves : Moves whole depth t o o' f f') (seen : Later o'.taken)
    (passed : track (flat depth) t o'.stream.commit = .ok (flat depth) o'.stream.commit) :
    Abreast held Later whole depth o' f' := by
  have goes := moves.goes
  rw [passed] at goes
  exact ⟨⟨moves.whole, goes⟩, abreast.toRemembers.moved moves, seen⟩

theorem Abreast.kept {s : TokenStream} (abreast : Abreast held Seen whole depth o f)
    (along : Along whole depth { o with stream := s } f) (journal : s.journal = o.stream.journal) :
    Abreast held Seen whole depth { o with stream := s } f :=
  ⟨along, abreast.toRemembers.kept journal, abreast.seen⟩

theorem Abreast.look (abreast : Abreast held Seen whole depth o f) :
    Agree (abreastFaults eof held whole)
      (fun a b o' f' => Option.Rel (Alike Eq) a b ∧ Abreast held Seen whole depth o' f')
      (current eof o) (current eof f) :=
  abreast.toAlong.looks (fun _ _ _ => rfl) fun a _ along journal => ⟨alike_refl a, abreast.kept along journal⟩

-- Outside of what counts braces and texts the sources move in step, and what was taken grows.
theorem abreast_lock {plain : TokenKind → Prop} (typed : ∀ kind, plain kind → kind ∈ typeKinds)
    (grows : ∀ ts t, Seen ts → plain t.kind → Later (ts ++ [t])) :
    Lock Eq plain (abreastFaults eof held whole) (Abreast held Seen whole depth)
      (Abreast held Later whole depth) where
  look _ _ abreast := abreast.look
  take o f abreast := by
    refine abreast.toAlong.takes (fun _ _ _ => rfl) (fun _ => abreast.kept) fun t o' f' moves => ?_
    refine ⟨⟨rfl, rfl, rfl, rfl⟩, fun one => ?_⟩
    have ordinary := typeKinds_ordinary _ (typed _ one)
    exact abreast.moved moves (moves.taken ▸ grows _ _ abreast.seen one) (track_ordinary ordinary _ _)
  fault _ near e _ := congrArg (fun span => ReadError.grammatical ⟨span, e⟩) near
  ended _ := rfl

end Tokens

-- The same during an attempt, which the feed has begun.
structure Attempting (held : Bool) (whole : List Answer) (depth : Nat) (o : Observed) (f : Feed) : Prop
    extends Along whole depth o f where
  journal : o.stream.journal.isSome
  journal' : f.journal.isSome
  -- The attempt is the stream's own, unless a position was remembered before.
  back : held = false → Returnable o f

def attemptFaults (eof : Span) (held : Bool) (whole : List Answer) (depth : Nat) : Faults Observed Feed where
  eof := eof
  eof' := eof
  both e e' o f := e = e' ∧ (e.isLexical = false → Attempting held whole depth o f)
  first _ _ := False

theorem Attempting.kept {s : TokenStream} (attempting : Attempting held whole depth o f)
    (along : Along whole depth { o with stream := s } f) (journal : s.journal = o.stream.journal) :
    Attempting held whole depth { o with stream := s } f :=
  ⟨along, (congrArg _ journal).trans attempting.journal, attempting.journal',
    fun own => (attempting.back own).kept journal rfl⟩

theorem Attempting.moved {t : Token} (attempting : Attempting held whole depth o f)
    (moves : Moves whole depth t o o' f f') (one : t.kind ∈ typeKinds) : Attempting held whole depth o' f' := by
  have goes := moves.goes
  rw [track_ordinary (typeKinds_ordinary _ one)] at goes
  refine ⟨⟨moves.whole, goes⟩, ?_, ?_, fun own => moves.returnable (attempting.back own) one⟩
  · rw [moves.journal, Option.isSome_map]
    exact attempting.journal
  · rw [moves.journal', Option.isSome_map]
    exact attempting.journal'

theorem attempting_lock : Lock Eq (· ∈ typeKinds) (attemptFaults eof held whole depth)
    (Attempting held whole depth) (Attempting held whole depth) where
  look _ _ attempting := attempting.toAlong.looks (fun _ _ _ => ⟨rfl, nofun⟩) fun a _ along journal =>
    ⟨alike_refl a, attempting.kept along journal⟩
  take _ _ attempting := attempting.toAlong.takes (fun _ _ _ => ⟨rfl, nofun⟩) (fun _ => attempting.kept)
    fun _ _ _ moves => ⟨⟨rfl, rfl, rfl, rfl⟩, attempting.moved moves⟩
  fault attempting near e _ := ⟨congrArg (fun span => ReadError.grammatical ⟨span, e⟩) near, fun _ => attempting⟩
  ended attempting := ⟨rfl, fun _ => attempting⟩

theorem begin_held (journal : o.stream.journal.isSome) : begin? o = none := by
  obtain ⟨j, same⟩ := Option.isSome_iff_exists.1 journal
  simp only [TokenSource.begin?, Observed.begin?, TokenStream.begin?, same, Option.map_none]

theorem attempting_sealed : Sealed (Attempting held whole depth) := by
  intro o f attempting
  obtain ⟨_, _ | _⟩ := f
  · cases attempting.journal'
  · exact ⟨begin_held attempting.journal, rfl⟩

-- In an attempt both sources read the same list of types, or fail alike.
theorem attempting_list : Keeps (attemptFaults eof held whole depth) (Attempting held whole depth)
    (closedGenerics typeExpr) (closedGenerics typeExpr) :=
  attempting_lock.closedGenerics (fun _ typed => typed)
    (attempting_lock.typeExpr_sealed attempting_sealed fun _ typed => typed)

theorem Abreast.begins (abreast : Abreast false Any whole depth o f) :
    ∃ o' f', begin? o = some o' ∧ begin? f = some f' ∧ Attempting false whole depth o' f' := by
  obtain ⟨ahead, _⟩ := f
  cases abreast.free'
  have free : o.stream.journal = none := Option.isSome_eq_false_iff.1 abreast.journal |> Option.isNone_iff_eq_none.1
  refine ⟨{ o with stream := { o.stream with journal := some [] } }, ⟨ahead, some []⟩, ?_, rfl, ?_⟩
  · simp only [TokenSource.begin?, Observed.begin?, TokenStream.begin?, free, Option.map_some]
  · exact ⟨⟨abreast.whole, abreast.listed⟩, rfl, rfl, fun _ => .begin⟩

theorem abreast_opens : Opens (abreastFaults eof false whole) (Abreast false Any whole depth)
    (attemptFaults eof false whole depth) (Attempting false whole depth) where
  eof := rfl
  eof' := rfl
  begins := Abreast.begins
  commits attempting := ⟨⟨attempting.whole, attempting.listed⟩, ⟨rfl, rfl⟩, trivial⟩
  alike bad := congrArg _ bad.1
  fails bad _ := bad.1
  resets bad grammatical := by
    have attempting := bad.2 grammatical
    have back := attempting.toAlong.reset (attempting.back rfl)
    exact ⟨back, ⟨rfl, rfl⟩, trivial⟩
  first bad := bad.elim

theorem free_lock : Lock Eq (· ∈ typeKinds) (abreastFaults eof false whole) (Abreast false Any whole depth)
    (Abreast false Any whole depth) :=
  abreast_lock (fun _ typed => typed) fun _ _ _ _ => trivial

theorem free_attempts : Attempts Eq (· ∈ typeKinds) (abreastFaults eof false whole)
    (Abreast false Any whole depth) :=
  .inr ⟨_, _, abreast_opens, attempting_lock, attempting_sealed⟩

-- The token taken last is a name.
def AfterName (ts : List Token) : Prop := ∃ before name, ts = before ++ [name] ∧ name.kind = .identifier

theorem named_taken (named : BehindName o) : AfterName o.taken := by
  obtain ⟨o₀, name, took, kind⟩ := named
  have taken : o₀.take = .ok (some name) o := took
  unfold Observed.take at taken
  split at taken <;> cases taken
  exact ⟨_, name, rfl, kind⟩

-- The feed gives up an attempt where the stream fails for good.
theorem held_attempt {less : Token} {rest : List Answer} (abreast : Abreast true AfterName whole depth o f)
    (next : f.ahead = .ok less :: rest) (opens : less.kind = .less) :
    Agree (abreastFaults eof true whole) (same (within (Abreast true Any whole depth) o f))
      (attempt (closedGenerics typeExpr) eof o) (attempt (closedGenerics typeExpr) eof f) := by
  obtain ⟨ahead, _⟩ := f
  cases abreast.free'
  have begun : begin? (⟨ahead, none⟩ : Feed) = some ⟨ahead, some []⟩ := rfl
  have start : Attempting true whole depth o ⟨ahead, some []⟩ :=
    ⟨⟨abreast.whole, abreast.listed⟩, abreast.journal, rfl, nofun⟩
  rw [attempt_none (begin_held abreast.journal)]
  have agree : Agree (attemptFaults eof true whole depth) _ (closedGenerics typeExpr eof _)
      (closedGenerics typeExpr eof _) := attempting_list _ _ start
  rcases agree.split with ⟨args, _, o', f', ran, ran', rfl, kept, lighter⟩ |
      ⟨e, _, o', f', ran, ran', rfl, -⟩ | ⟨_, _, _, bad⟩
  · rw [attempt_ok begun ran']
    simp only [Functor.map, EStateM.map, ran]
    exact .ok ⟨rfl, ⟨⟨kept.whole, kept.listed⟩, ⟨kept.journal, rfl⟩, trivial⟩, lighter⟩
  · rw [attempt_failed begun ran']
    simp only [Functor.map, EStateM.map, ran]
    cases reason : e.isLexical with
    | true => exact .failed rfl
    | false =>
      obtain ⟨before, name, taken, named⟩ := abreast.seen
      refine .first (.inr ⟨rfl, before, name, less, rest, ?_, named, opens, ?_⟩)
      · rw [← taken, ← next]
        exact abreast.whole.symm
      · intro args behind begins
        -- A closed list would have been read.
        obtain ⟨ts, spells, same⟩ := begins
        have read := spells.reads eof behind []
        rw [← same, ← next, ran'] at read
        cases read
  · exact bad.elim

theorem ahead_of_take {t : Token} (took : TokenSource.take f = .ok (some t) f') :
    ∃ rest, f.ahead = .ok t :: rest := by
  obtain ⟨_ | ⟨_ | _, rest⟩, _⟩ := f <;> cases took
  exact ⟨rest, rfl⟩

theorem held_generics (abreast : Abreast true AfterName whole depth o f) :
    Agree (abreastFaults eof true whole) (same (within (Abreast true Any whole depth) o f))
      (genericsAfterName typeExpr eof o) (genericsAfterName typeExpr eof f) := by
  have lock : Lock Eq (fun _ => False) (abreastFaults eof true whole) (Abreast true AfterName whole depth)
      (Abreast true AfterName whole depth) := abreast_lock (fun _ => False.elim) fun _ _ _ => False.elim
  unfold genericsAfterName
  refine ((lock.restrict o f).isNext o f ⟨abreast, Nat.le_refl _, Nat.le_refl _⟩).bind ?_
  intro a b o' f' found
  obtain ⟨rfl, start, seen⟩ := found
  cases a with
  | false => exact .ok ⟨rfl, start.1.any, start.2⟩
  | true =>
    obtain ⟨x, y, kind, ⟨-, -, f'', took⟩, alike⟩ := seen rfl
    rw [kind_eq alike] at kind
    obtain ⟨less, rfl, opens⟩ := Option.map_eq_some_iff.1 kind
    obtain ⟨rest, next⟩ := ahead_of_take took
    exact (held_attempt start.1 next opens).mono fun _ _ _ _ good => ⟨good.1, good.2.trans start⟩

theorem held_type : Keeps (abreastFaults eof true whole) (Abreast true Any whole depth) typeExpr typeExpr := by
  intro o f start
  have lock : Lock Eq (· = .identifier) (abreastFaults eof true whole) (Abreast true Any whole depth)
      (Abreast true AfterName whole depth) :=
    abreast_lock (by rintro _ rfl; decide) fun ts t _ named => ⟨ts, t, rfl, named⟩
  have name := (lock.restrict o f).identifier rfl o f ⟨start, Nat.le_refl _, Nat.le_refl _⟩
  rw [typeExpr_unfold, typeExpr_unfold]
  refine name.bind fun _ _ o' f' found => ?_
  obtain ⟨rfl, passed⟩ := found
  exact (held_generics passed.1).bind fun _ _ => Carries.pure fun _ _ good =>
    ⟨congrArg _ good.1, below_within (good.2.trans_below passed)⟩

theorem abreast_type : Keeps (abreastFaults eof held whole) (Abreast held Any whole depth) typeExpr typeExpr := by
  cases held with
  | true => exact held_type
  | false => exact free_lock.typeExpr free_attempts fun _ typed => typed

theorem abreast_generics (abreast : Abreast held Any whole depth o f) (named : BehindName o) :
    Agree (abreastFaults eof held whole) (same (within (Abreast held Any whole depth) o f))
      (genericsAfterName typeExpr eof o) (genericsAfterName typeExpr eof f) := by
  cases held with
  | true => exact held_generics { abreast with seen := named_taken named }
  | false => exact free_lock.generics free_attempts (fun _ typed => typed) o f abreast

-- Behind a token whose text or brace `step` still has to count.
structure Pending (held : Bool) (whole : List Answer) (step : TokenStream → TokenStep TokenStream (List Nat))
    (o : Observed) (f : Feed) : Prop extends Remembers held o f where
  whole : o.taken.map .ok ++ f.ahead = whole
  goes : Goes (step o.stream.commit) f.ahead

-- What the listing does at the brace that closes a segment.
def leaving (outer : List Nat) (s : TokenStream) : TokenStep TokenStream (List Nat) :=
  match s.resumeText with
  | .ok () s => .ok outer s
  | .error e s => .error e s

theorem track_leaving {t : Token} (closes : t.kind = .rightBrace) (outer : List Nat) (s : TokenStream) :
    track (0 :: outer) t s = leaving outer s := by
  simp only [track, closes, leaving, TokenSource.resumeText]
  cases s.resumeText <;> rfl

theorem Moves.lands {t : Token} (moves : Moves whole depth t o o' f f')
    (abreast : Abreast held Any whole depth o f) :
    Lands (Abreast held Any whole) (fun depth => Pending held whole (afterText (flat depth)))
      (fun depth => Pending held whole (leaving (flat depth))) depth t.kind o' f' := by
  have remembers := abreast.toRemembers.moved moves
  have goes := moves.goes
  by_cases text : t.kind = .stringText
  · rw [track_text text] at goes
    rw [text]
    cases depth <;> exact ⟨remembers, moves.whole, goes⟩
  · cases depth with
    | zero =>
      rw [lands_outside text]
      exact abreast.moved moves trivial (track_outside text _)
    | succ depth =>
      by_cases closes : t.kind = .rightBrace
      · rw [closes]
        rw [show flat (depth + 1) = 0 :: flat depth from rfl, track_leaving closes] at goes
        exact ⟨remembers, moves.whole, goes⟩
      · by_cases opens : t.kind = .leftBrace
        · rw [opens]
          trivial
        · have ordinary : Ordinary t.kind := ⟨text, opens, closes⟩
          rw [lands_ordinary ordinary]
          exact abreast.moved moves trivial (track_ordinary ordinary _ _)

theorem abreast_afterText : Carries (abreastFaults eof held whole) (Pending held whole (afterText (flat depth)))
    (fun a b o f => Option.Rel (Alike Eq) a b ∧ if a.map Token.kind = some .stringEnd
      then Abreast held Any whole depth o f else Abreast held Any whole (depth + 1) o f)
    current current := by
  intro o f pending
  unfold current ofStep
  rcases look_behind pending.whole pending.goes with ⟨e, o', f', looked, looked', -, -⟩ |
      ⟨a, s, -, looked, looked', journal, along⟩ <;> rw [looked, looked']
  · exact .failed rfl
  · have abreast {depth : Nat} (along : Along whole depth { o with stream := s } f) :
        Abreast held Any whole depth { o with stream := s } f :=
      ⟨along, pending.toRemembers.kept journal, trivial⟩
    refine .ok ⟨alike_refl a, ?_⟩
    by_cases ends : a.map Token.kind = some .stringEnd <;>
      simp only [ends, if_true, if_false] at along ⊢ <;> exact abreast along

theorem abreast_resume : Carries (abreastFaults eof held whole) (Pending held whole (leaving (flat depth)))
    (same (Abreast held Any whole depth)) (ofStep resumeText) (ofStep resumeText) := by
  intro o f pending
  have goes := pending.goes
  have journal := TokenStream.resumeText_journal o.stream
  rw [leaving, ← TokenStream.resumeText_commit] at goes
  simp only [ofStep, TokenSource.resumeText, Observed.resumeText]
  rcases left : o.stream.resumeText with ⟨_, s⟩ | ⟨e, s⟩ <;> rw [left] at goes journal
  · exact .ok ⟨rfl, ⟨pending.whole, goes⟩, pending.toRemembers.kept journal, trivial⟩
  -- No segment can be left here, which the listing says too.
  · exact .first (.inl ⟨e, error_mem pending.whole goes⟩)

theorem abreast_weave : Weave Eq (abreastFaults eof held whole) (Abreast held Any whole)
    (Abreast held Any whole) (fun depth => Pending held whole (afterText (flat depth)))
    (fun depth => Pending held whole (leaving (flat depth))) where
  look _ _ _ abreast := abreast.look
  take _ _ _ abreast := abreast.toAlong.takes (fun _ _ _ => rfl) (fun _ => abreast.kept)
    fun _ _ _ moves => ⟨⟨rfl, rfl, rfl, rfl⟩, moves.lands abreast, fun _ _ => rfl⟩
  fault _ near e _ := congrArg (fun span => ReadError.grammatical ⟨span, e⟩) near
  ended _ := rfl
  afterText _ := abreast_afterText
  resume _ := abreast_resume
  generics := abreast_generics

theorem abreast_ground : Ground Eq (abreastFaults eof held whole) (Abreast held Any whole 0) where
  lock := abreast_weave.outside
  expr := abreast_weave.expr 0
  type := abreast_type

theorem abreast_start {r : Reader} {lookahead : List Token}
    (listed : Listed [] (⟨r, lookahead, none⟩ : TokenStream) whole) (journal : Option (List Token)) :
    Abreast journal.isSome Any whole 0 ⟨⟨r, lookahead, journal⟩, [], []⟩ ⟨whole, none⟩ :=
  ⟨⟨rfl, listed⟩, ⟨rfl, rfl⟩, trivial⟩

section Runs

variable {node : Node} (start : Abreast held Any whole 0 o f)

include start

-- A program is read from the feed as well, along all that is listed.
theorem abreast_reads (read : program eof o = .ok node o') :
    whole = o'.taken.map .ok ∧ ∃ f', program eof f = .ok node f' := by
  have agree : Agree (abreastFaults eof held whole) _ (program eof o) (program eof f) :=
    abreast_ground.program o f start
  rcases agree.split with ⟨_, _, o₁, f₁, ran, ran', rfl, abreast⟩ |
      ⟨_, _, _, _, ran, -⟩ | ⟨_, _, ran, -⟩ <;> cases read.symm.trans ran
  have all := abreast.whole
  rw [program_ended ran', List.append_nil] at all
  exact ⟨all.symm, f₁, ran'⟩

-- What the feed is read as, the stream is read as too, unless it fails alone.
theorem abreast_verdict (read : program eof f = .ok node f') :
    (∃ o', program eof o = .ok node o') ∨ (∃ e, .error e ∈ whole) ∨ held = true ∧ OpenList whole := by
  have agree : Agree (abreastFaults eof held whole) _ (program eof o) (program eof f) :=
    abreast_ground.program o f start
  rcases agree.split with ⟨_, _, o₁, _, ran, ran', rfl, -⟩ |
      ⟨_, _, _, _, -, failed, -⟩ | ⟨_, _, -, alone⟩
  · cases read.symm.trans ran'
    exact .inl ⟨o₁, ran⟩
  · cases read.symm.trans failed
  · exact .inr alone

end Runs

theorem no_error {ts : List Token} (e : Located LexicalError) : .error e ∉ (ts.map .ok : List Answer) := by
  simp

theorem OpenList.among {ts : List Token} (openList : OpenList (ts.map .ok)) :
    ∃ before name less after, ts = before ++ name :: less :: after ∧
      name.kind = .identifier ∧ less.kind = .less ∧ ¬ Encloses (less :: after) := by
  obtain ⟨before, name, less, rest, same, named, opens, noList⟩ := openList
  obtain ⟨front, back, rfl, front_eq, back_eq⟩ := List.map_eq_append_iff.1 same
  obtain rfl := (List.map_inj_right fun _ _ => Except.ok.inj).1 front_eq
  obtain ⟨_, after, rfl, less_eq, rfl⟩ := List.map_eq_cons_iff.1 back_eq
  cases less_eq
  refine ⟨before, name, less, after, by simp, named, opens, ?_⟩
  intro encloses
  obtain ⟨args, us, behind, spells, same⟩ := encloses
  refine noList args (behind.map .ok) ⟨us, spells, ?_⟩
  rw [← List.map_append, ← same]
  rfl

theorem program_shown (s : TokenStream) (eof : Span) :
    seen Observed.stream (program eof ⟨s, [], []⟩) = program eof s :=
  Observed.view_stream.program_seen Observed.resumeText_stream _

theorem read_observed {s : TokenStream} {length : Nat} {node : Node}
    (read : readProgramFrom s length = .ok node) :
    ∃ o, program (σ := Observed) (.empty length) ⟨s, [], []⟩ = .ok node o ∧
      program (.empty length) s = .ok node o.stream := by
  obtain ⟨s', ran⟩ := runOn_ok.1 read
  have shown := program_shown s (.empty length)
  obtain ⟨o, ran', rfl⟩ := of_seen_ok (shown.trans ran)
  exact ⟨o, ran', ran⟩

theorem read_of_observed {s : TokenStream} {length : Nat} {node : Node}
    (ran : program (σ := Observed) (.empty length) ⟨s, [], []⟩ = .ok node o) :
    readProgramFrom s length = .ok node := by
  have shown := program_shown s (.empty length)
  rw [ran] at shown
  exact runOn_ok.2 ⟨_, shown.symm⟩

-- All that a stream brings up, from wherever it stands.
theorem listed_ahead (s : TokenStream) : ∃ whole, Listed [] s whole := by
  have listed := listed_toList [] s
  revert listed
  rcases toList [] s with ⟨tokens, s'⟩ | ⟨e, s'⟩
  · exact fun listed => ⟨_, listed⟩
  · exact fun ⟨_, listed⟩ => ⟨_, listed⟩

-- A remembered position only makes reading stricter.
--
-- What is read while a position is remembered is read without it as well, and where only the run without
-- it succeeds, that run took a name and a `<` behind it that opens no closed list of types.
theorem remembered_position_stricter {s held : TokenStream} (begun : s.begin? = some held) (length : Nat) :
    (∀ node, readProgramFrom held length = .ok node → readProgramFrom s length = .ok node) ∧
    ∀ e node, readProgramFrom held length = .error e → readProgramFrom s length = .ok node →
      ∃ o, program (σ := Observed) (.empty length) ⟨s, [], []⟩ = .ok node o ∧
        program (.empty length) s = .ok node o.stream ∧
        ∃ before name less after, o.taken = before ++ name :: less :: after ∧
          name.kind = .identifier ∧ less.kind = .less ∧ ¬ Encloses (less :: after) := by
  obtain ⟨reader, lookahead, _ | journal⟩ := s <;> cases begun
  obtain ⟨whole, listed⟩ := listed_ahead ⟨reader, lookahead, none⟩
  have strict := abreast_start listed (some [])
  have plain := abreast_start listed none
  constructor
  · intro node read
    obtain ⟨o, ran, -⟩ := read_observed read
    obtain ⟨rfl, f, fed⟩ := abreast_reads strict ran
    rcases abreast_verdict plain fed with ⟨o', ran'⟩ | ⟨e, listed⟩ | ⟨never, -⟩
    · exact read_of_observed ran'
    · exact (no_error e listed).elim
    · cases never
  · intro e node failed read
    obtain ⟨o, ran, ran'⟩ := read_observed read
    obtain ⟨rfl, f, fed⟩ := abreast_reads plain ran
    rcases abreast_verdict strict fed with ⟨o', other⟩ | ⟨e, listed⟩ | ⟨-, openList⟩
    · cases failed.symm.trans (read_of_observed other)
    · exact (no_error e listed).elim
    · exact ⟨o, ran, ran', openList.among⟩

-- Behind a token that was passed over, a comparison that is no list of types.
theorem comparison_refused_held :
    let s := TokenStep.after ((TokenStream.ofSource "1 var a = b < c;").consume 0)
    ∃ held e node o, s.begin? = some held ∧ readProgramFrom held 16 = .error e ∧
      readProgramFrom s 16 = .ok node ∧ program (σ := Observed) (.empty 16) ⟨s, [], []⟩ = .ok node o ∧
      ∃ before name less after, o.taken = before ++ name :: less :: after ∧
        name.kind = .identifier ∧ less.kind = .less ∧ ¬ Encloses (less :: after) := by
  intro s
  have verdicts : (s.begin?.map fun held => (readProgramFrom held 16).isOk) = some false ∧
      (readProgramFrom s 16).isOk = true := by decide +kernel
  obtain ⟨refused, accepted⟩ := verdicts
  obtain ⟨held, begun, refused⟩ := Option.map_eq_some_iff.1 refused
  cases failed : readProgramFrom held 16 with
  | ok node => rw [failed] at refused; cases refused
  | error e =>
    cases read : readProgramFrom s 16 with
    | error e => rw [read] at accepted; cases accepted
    | ok node =>
      obtain ⟨o, ran, -, found⟩ := (remembered_position_stricter begun 16).2 e node failed read
      exact ⟨held, e, node, o, begun, failed, rfl, ran, found⟩

end Frontend
