import Frontend.Token.Progress

-- Which strings and segments are open between two tokens.  The kind of the last token tells how the reader
-- stands: in front of a text, in code, or behind a text and then inside of the string or in a segment of it.

namespace Frontend

open Text

-- The modes in code inside of `depth` segments.
def modesOf : Nat → List Mode
  | 0 => []
  | depth + 1 => .code :: .text :: modesOf depth

def Inert (kind : TokenKind) : Prop :=
  kind ≠ .stringBegin ∧ kind ≠ .stringText ∧ kind ≠ .leftBrace ∧ kind ≠ .rightBrace

instance (kind : TokenKind) : Decidable (Inert kind) :=
  inferInstanceAs (Decidable (_ ∧ _ ∧ _ ∧ _))

namespace Reader

-- In code with nothing in the queue, where a segment can be left.
structure Plain (depth : Nat) (r : Reader) : Prop where
  modes : r.modes = modesOf depth
  idle : r.deferred = []

structure InCode (depth : Nat) (r : Reader) : Prop where
  modes : r.modes = modesOf depth
  inert : ∀ t ∈ r.deferred, Inert t.kind

structure BeforeText (depth : Nat) (r : Reader) : Prop where
  modes : r.modes = .text :: modesOf depth
  idle : r.deferred = []

structure AtEnd (depth : Nat) (r : Reader) : Prop where
  modes : r.modes = modesOf depth
  queued : ∃ t, r.deferred = [t] ∧ t.kind = .stringEnd

-- How a reader stands behind a token of the given kind in `depth` segments.
def Behind (depth : Nat) : TokenKind → Reader → Prop
  | .stringBegin, r => r.BeforeText depth
  | .stringText, r => r.AtEnd depth ∨ r.Plain (depth + 1)
  | .leftBrace, r | .rightBrace, r => r.Plain depth
  | _, r => r.InCode depth

variable {depth : Nat} {r r' : Reader}

theorem Plain.inCode (plain : r.Plain depth) : r.InCode depth :=
  ⟨plain.modes, fun t waiting => by rw [plain.idle] at waiting; cases waiting⟩

theorem behind_inert {kind : TokenKind} (inert : Inert kind) : Behind depth kind r = r.InCode depth := by
  obtain ⟨_, _, _, _⟩ := inert
  cases kind <;> first | rfl | contradiction

theorem Plain.behind {kind : TokenKind} (plain : r.Plain depth) (noBegin : kind ≠ .stringBegin)
    (noText : kind ≠ .stringText) : Behind depth kind r := by
  cases kind <;> first | exact plain.inCode | exact plain | contradiction

theorem ofPair_plain {first second : Char} {kind : TokenKind}
    (found : TokenKind.ofPair? first second = some kind) : Inert kind ∧ kind ≠ .stringEnd := by
  unfold TokenKind.ofPair? at found
  split at found <;> cases found <;> decide

theorem ofSymbol_plain {c : Char} {kind : TokenKind} (found : TokenKind.ofSymbol? c = some kind) :
    kind ≠ .stringBegin ∧ kind ≠ .stringText ∧ kind ≠ .stringEnd := by
  unfold TokenKind.ofSymbol? at found
  split at found <;> cases found <;> decide

theorem symbol_plain {c : Char} {cs : List Char} {kind : TokenKind} {text rest : List Char}
    (found : symbol? c cs = some (kind, text, rest)) :
    kind ≠ .stringBegin ∧ kind ≠ .stringText ∧ kind ≠ .stringEnd := by
  rcases symbol_cases found with ⟨d, pair, -⟩ | ⟨-, spelled, -⟩
  · obtain ⟨inert, noEnd⟩ := ofPair_plain pair
    exact ⟨inert.1, inert.2.1, noEnd⟩
  · exact ofSymbol_plain spelled

theorem ofWord_inert (word : List Char) :
    Inert (TokenKind.ofWord word) ∧ TokenKind.ofWord word ≠ .stringEnd := by
  unfold TokenKind.ofWord
  repeat' split
  all_goals decide

theorem integerToken_kind {lo : Nat} {digits : List Char} {token : Token}
    (fits : integerToken lo digits = .ok token) : token.kind = .integer := by
  obtain ⟨n, -, rfl⟩ := integerToken_eq_ok.1 fits
  rfl

theorem integerToken_error {lo : Nat} {digits : List Char} {e : Located LexicalError}
    (fails : integerToken lo digits = .error e) : e.value ≠ .unbalancedInterpolation := by
  rw [(integerToken_eq_error.1 fails).2]
  exact LexicalError.noConfusion

-- What reading from code gives: a token that is no text, and no end of a string either.
def CodeStep (depth : Nat) : Step (Option Token) → Prop
  | .ok (some t) r' => t.kind ≠ .stringText ∧ t.kind ≠ .stringEnd ∧ Behind depth t.kind r'
  | .ok none r' => r'.Plain depth
  | .error e _ => e.value ≠ .unbalancedInterpolation

theorem readRange_code (plain : r.Plain depth) (digits rest : List Char) :
    CodeStep depth (r.readRange digits rest) := by
  have behind {t : Token} {r' : Reader} (integer : t.kind = .integer) (modes : r'.modes = modesOf depth)
      (inert : ∀ t ∈ r'.deferred, Inert t.kind) : CodeStep depth (.ok (some t) r') := by
    simp only [CodeStep, integer]
    exact ⟨by decide, by decide, modes, inert⟩
  have outcome := r.readRange_outcome digits rest
  generalize r.readRange digits rest = step at outcome ⊢
  cases outcome with
  | leftGreat fails | rightGreat _ _ fails => exact integerToken_error fails
  | unbounded fits =>
    exact behind (integerToken_kind fits) plain.modes (List.forall_mem_singleton.2 (by decide : Inert .dotDot))
  | bounded fits _ fits' =>
    refine behind (integerToken_kind fits) plain.modes
      (List.forall_mem_cons.2 ⟨(by decide : Inert .dotDot), List.forall_mem_singleton.2 ?_⟩)
    rw [integerToken_kind fits']
    decide

theorem readToken_code (plain : r.Plain depth) (c : Char) (cs : List Char) :
    CodeStep depth (r.readToken c cs) := by
  have moved (count : Nat) (rest : List Char) : (r.moveTo count rest).Plain depth :=
    ⟨plain.modes, plain.idle⟩
  have outcome := r.readToken_outcome c cs
  generalize r.readToken c cs = step at outcome ⊢
  cases outcome with
  | symbol found =>
    obtain ⟨noBegin, noText, noEnd⟩ := symbol_plain found
    exact ⟨noText, noEnd, (moved _ _).behind noBegin noText⟩
  | quote => exact ⟨nofun, nofun, congrArg (Mode.text :: ·) plain.modes, plain.idle⟩
  | @word _ text _ _ _ _ spelled =>
    obtain ⟨inert, noEnd⟩ := ofWord_inert (clamped text)
    rw [← spelled] at inert noEnd
    exact ⟨inert.2.1, noEnd, (moved _ _).behind inert.1 inert.2.1⟩
  | range _ _ read => exact read ▸ readRange_code plain _ _
  | double => exact ⟨nofun, nofun, (moved _ _).inCode⟩
  | integer _ _ fits =>
    simp only [CodeStep, integerToken_kind fits]
    exact ⟨by decide, by decide, (moved _ _).inCode⟩
  | great _ _ fails => exact integerToken_error fails
  | unexpected => exact LexicalError.noConfusion

theorem noText_modesOf (depth : Nat) (outer : List Mode) : modesOf depth ≠ .text :: outer := by
  cases depth <;> exact nofun

theorem next_plain (plain : r.Plain depth) : CodeStep depth r.next := by
  have skipped : r.skipBlanks.Plain depth := ⟨plain.modes, plain.idle⟩
  have outcome := r.next_outcome
  generalize r.next = step at outcome ⊢
  cases outcome with
  | waiting waits => cases plain.idle.symm.trans waits
  | text _ inside => exact absurd (plain.modes.symm.trans inside) (noText_modesOf _ _)
  | ended => exact skipped
  | token _ _ _ read => exact read ▸ readToken_code skipped _ _

-- Where text is next, it is what is read, and behind it its string ends or a segment begins.
theorem next_text (before : r.BeforeText depth) :
    ∃ t r', r.next = .ok (some t) r' ∧ t.kind = .stringText ∧ Behind depth .stringText r' := by
  have outcome := r.readText_outcome (modesOf depth)
  rw [next_inText before.idle before.modes]
  generalize r.readText (modesOf depth) = step at outcome ⊢
  cases outcome with
  | unclosed | closed => exact ⟨_, _, rfl, rfl, .inl ⟨rfl, _, rfl, rfl⟩⟩
  | segment => exact ⟨_, _, rfl, rfl, .inr ⟨rfl, rfl⟩⟩

theorem next_inCode (code : r.InCode depth) :
    match r.next with
    | .ok (some t) r' => t.kind ≠ .stringText ∧ Behind depth t.kind r'
    | .ok none r' => r'.Plain depth
    | .error e _ => e.value ≠ .unbalancedInterpolation := by
  cases waiting : r.deferred with
  | nil =>
    have step := next_plain ⟨code.modes, waiting⟩
    revert step
    rcases r.next with ⟨_ | t, r'⟩ | ⟨e, r'⟩
    · exact id
    · exact fun step => ⟨step.1, step.2.2⟩
    · exact id
  | cons t queue =>
    have inert := code.inert t (by rw [waiting]; exact List.mem_cons_self)
    rw [next_waiting waiting]
    refine ⟨inert.2.1, ?_⟩
    rw [behind_inert inert]
    exact ⟨code.modes, fun t queued => code.inert t (by rw [waiting]; exact List.mem_cons_of_mem _ queued)⟩

-- At the end of a string, that end is what comes next.
theorem next_atEnd (ends : r.AtEnd depth) :
    ∃ t r', r.next = .ok (some t) r' ∧ t.kind = .stringEnd ∧ r'.Plain depth := by
  obtain ⟨t, queued, kind⟩ := ends.queued
  exact ⟨t, { r with deferred := [] }, next_waiting queued, kind, ends.modes, rfl⟩

end Reader

end Frontend
