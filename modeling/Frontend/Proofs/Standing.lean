import Frontend.Proofs.Modes
import Frontend.Proofs.View

-- Where a stream stands among strings and segments, whatever of it is in the buffer.  Only names and the marks
-- of type lists are ever put back, so that at most the last token in the buffer opens or closes something.

namespace Frontend

open Grammar Reader

namespace TokenStream

variable {s s' : TokenStream}

theorem peek_cons {t : Token} {rest : List Token} (front : s.lookahead = t :: rest) :
    s.peek 0 = .ok (some t) s := by
  simp only [peek, needed_zero, fill_eq_pull, front, List.length_cons,
    Nat.sub_eq_zero_of_le (Nat.le_add_left 1 _), pull]
  rfl

theorem consume_cons {t : Token} {rest : List Token} (front : s.lookahead = t :: rest) :
    s.consume 0 =
      .ok (some t) { s with lookahead := rest, journal := s.journal.map (t :: ·) } := by
  simp only [consume, needed_zero, fill_eq_pull, front, List.length_cons,
    Nat.sub_eq_zero_of_le (Nat.le_add_left 1 _), pull]
  rfl

theorem peek_nil (front : s.lookahead = []) :
    s.peek 0 =
      match s.reader.next with
      | .error e r => .error e { s with reader := r }
      | .ok none r => .ok none { s with reader := r }
      | .ok (some t) r => .ok (some t) { s with reader := r, lookahead := [t] } := by
  simp only [peek, needed_zero, fill_eq_pull, front, List.length_nil, Nat.sub_zero, pull]
  rcases s.reader.next with ⟨_ | t, r⟩ | ⟨e, r⟩
  · simp only
    rfl
  · rfl
  · rfl

theorem consume_nil (front : s.lookahead = []) :
    s.consume 0 =
      match s.reader.next with
      | .error e r => .error e { s with reader := r }
      | .ok none r => .ok none { s with reader := r }
      | .ok (some t) r => .ok (some t) { s with reader := r, journal := s.journal.map (t :: ·) } := by
  simp only [consume, needed_zero, fill_eq_pull, front, List.length_nil, Nat.sub_zero, pull]
  rcases s.reader.next with ⟨_ | t, r⟩ | ⟨e, r⟩
  · simp only
    cases s.journal <;> rfl
  · simp only
    rfl
  · rfl

theorem peek_front (s : TokenStream) :
    (∃ e s', s.peek 0 = .error e s' ∧ s.consume 0 = .error e s') ∨
    ∃ a s', s.peek 0 = .ok a s' ∧ s'.consume 0 = s.consume 0 ∧ s'.journal = s.journal ∧
      ∃ s'', s.consume 0 = .ok a s'' := by
  cases front : s.lookahead with
  | cons t rest => exact .inr ⟨_, _, peek_cons front, rfl, rfl, _, consume_cons front⟩
  | nil =>
    rw [peek_nil front, consume_nil front]
    rcases read : s.reader.next with ⟨_ | t, r⟩ | ⟨e, r⟩
    · refine .inr ⟨_, _, rfl, ?_, rfl, _, rfl⟩
      rw [consume_nil (s := { s with reader := r }) front, Reader.next_end read]
    · refine .inr ⟨_, _, rfl, ?_, rfl, _, rfl⟩
      rw [consume_cons (s := { s with reader := r, lookahead := [t] }) rfl, ← front]
    · exact .inl ⟨e, _, rfl, rfl⟩

-- The journal has no part in what is answered.
theorem peek_commit (s : TokenStream) : seen commit (s.peek 0) = s.commit.peek 0 := by
  cases front : s.lookahead with
  | cons t rest => rw [peek_cons front, peek_cons (s := s.commit) front]; rfl
  | nil =>
    rw [peek_nil front, peek_nil (s := s.commit) front]
    simp only [commit]
    rcases s.reader.next with ⟨_ | t, r⟩ | ⟨e, r⟩ <;> rfl

theorem consume_commit (s : TokenStream) : seen commit (s.consume 0) = s.commit.consume 0 := by
  cases front : s.lookahead with
  | cons t rest => rw [consume_cons front, consume_cons (s := s.commit) front]; rfl
  | nil =>
    rw [consume_nil front, consume_nil (s := s.commit) front]
    simp only [commit]
    rcases s.reader.next with ⟨_ | t, r⟩ | ⟨e, r⟩ <;> rfl

theorem resumeText_commit (s : TokenStream) : seen commit s.resumeText = s.commit.resumeText := by
  unfold resumeText commit
  by_cases clear : s.lookahead = [] ∧ s.reader.deferred = []
  · rw [if_pos clear, if_pos clear]
    cases s.reader.resumeText <;> rfl
  · rw [if_neg clear, if_neg clear]
    rfl

theorem resumeText_journal (s : TokenStream) :
    (TokenStep.after s.resumeText).journal = s.journal := by
  unfold resumeText
  split
  · cases s.reader.resumeText <;> rfl
  · rfl

theorem consume_journal (s : TokenStream) :
    match s.consume 0 with
    | .ok (some t) s' => s'.journal = s.journal.map (t :: ·)
    | .ok none s' => s'.journal = s.journal ∧ s'.consume 0 = s.consume 0
    | .error _ _ => True := by
  cases front : s.lookahead with
  | cons t rest => rw [consume_cons front]
  | nil =>
    rw [consume_nil front]
    rcases read : s.reader.next with ⟨_ | t, r⟩ | ⟨e, r⟩
    · refine ⟨rfl, ?_⟩
      rw [consume_nil (s := { s with reader := r }) front, Reader.next_end read]
    · rfl
    · trivial

-- The stream stands in code inside of `depth` segments, or in front of a text there.  What lies in the
-- buffer in front of its last token opens and closes nothing.
def Stands (depth : Nat) (s : TokenStream) : Prop :=
  ∃ (front : List Token) (last : Option Token), s.lookahead = front ++ last.toList ∧ (∀ t ∈ front, t.kind ∈ typeKinds) ∧
    match last with
    | none => s.reader.InCode depth ∨ s.reader.BeforeText depth
    | some t => Behind depth t.kind s.reader

-- Right behind a token of the given kind, with an empty buffer.
structure At (depth : Nat) (kind : TokenKind) (s : TokenStream) : Prop where
  clear : s.lookahead = []
  behind : Behind depth kind s.reader

theorem Stands.between {depth : Nat} (clear : s.lookahead = [])
    (standing : s.reader.InCode depth ∨ s.reader.BeforeText depth) : s.Stands depth :=
  ⟨[], none, clear, nofun, standing⟩

theorem Stands.behind {depth : Nat} {t : Token} (last : s.lookahead = [t])
    (behind : Behind depth t.kind s.reader) : s.Stands depth :=
  ⟨[], some t, last, nofun, behind⟩

theorem stands_start (source : String) : (ofSource source).Stands 0 :=
  .between rfl (.inl ⟨rfl, nofun⟩)

-- What the reader does for a stream that stands in code or in front of a text.
theorem next_standing {depth : Nat} {r : Reader} (stands : r.InCode depth ∨ r.BeforeText depth) :
    match r.next with
    | .ok (some t) r' => Behind depth t.kind r'
    | .ok none r' => r'.Plain depth
    | .error e _ => e.value ≠ .unbalancedInterpolation := by
  rcases stands with code | before
  · have step := next_inCode code
    revert step
    rcases r.next with ⟨_ | t, r'⟩ | ⟨e, r'⟩
    · exact id
    · exact And.right
    · exact id
  · obtain ⟨t, r', read, kind, behind⟩ := next_text before
    simp only [read, kind]
    exact behind

theorem Stands.empty {depth : Nat} (stands : s.Stands depth) (front : s.lookahead = []) :
    s.reader.InCode depth ∨ s.reader.BeforeText depth := by
  obtain ⟨before, last, same, -, standing⟩ := stands
  rw [front] at same
  obtain ⟨-, none⟩ := List.append_eq_nil_iff.1 same.symm
  cases last with
  | none => exact standing
  | some t => cases none

theorem Stands.peek {depth : Nat} (stands : s.Stands depth) :
    match s.peek 0 with
    | .ok _ s' => s'.Stands depth
    | .error e _ => e.value ≠ .unbalancedInterpolation := by
  cases front : s.lookahead with
  | cons t rest =>
    rw [peek_cons front]
    exact stands
  | nil =>
    rw [peek_nil front]
    have step := next_standing (stands.empty front)
    revert step
    rcases s.reader.next with ⟨_ | t, r'⟩ | ⟨e, r'⟩
    · exact fun plain => .between front (.inl plain.inCode)
    · exact fun behind => .behind rfl behind
    · exact id

theorem Stands.consume {depth : Nat} (stands : s.Stands depth) :
    match s.consume 0 with
    | .ok (some t) s' => s'.At depth t.kind ∨ t.kind ∈ typeKinds ∧ s'.Stands depth
    | .ok none s' => s'.Stands depth
    | .error e _ => e.value ≠ .unbalancedInterpolation := by
  cases front : s.lookahead with
  | nil =>
    rw [consume_nil front]
    have step := next_standing (stands.empty front)
    revert step
    rcases s.reader.next with ⟨_ | t, r'⟩ | ⟨e, r'⟩
    · exact fun plain => .between front (.inl plain.inCode)
    · exact fun behind => .inl ⟨front, behind⟩
    · exact id
  | cons t rest =>
    rw [consume_cons front]
    obtain ⟨before, last, same, typed, standing⟩ := stands
    rw [front] at same
    cases before with
    | nil =>
      cases last with
      | none => cases same
      | some u =>
        cases same
        exact .inl ⟨rfl, standing⟩
    | cons u before =>
      cases same
      exact .inr ⟨typed _ List.mem_cons_self, before, last, rfl,
        fun t within => typed t (List.mem_cons_of_mem _ within), standing⟩

theorem Stands.reset {depth : Nat} (stands : s.Stands depth)
    (typed : ∀ t ∈ s.journal.getD [], t.kind ∈ typeKinds) : s.reset.Stands depth := by
  obtain ⟨before, last, same, typed', standing⟩ := stands
  refine ⟨(s.journal.getD []).reverse ++ before, last, ?_, ?_, standing⟩
  · rw [TokenStream.reset, same, List.append_assoc]
  · intro t within
    rcases List.mem_append.1 within with put | kept
    · exact typed t (List.mem_reverse.1 put)
    · exact typed' t kept

theorem At.stands {depth : Nat} {kind : TokenKind} (place : s.At depth kind)
    (noText : kind ≠ .stringText) : s.Stands depth := by
  refine .between place.clear ?_
  have behind := place.behind
  cases kind <;> first | exact .inl behind | exact .inl behind.inCode | exact .inr behind | contradiction

-- A segment can be left without harm: no token behind it was read, and code is innermost.
structure Ready (s : TokenStream) : Prop where
  clear : s.lookahead = []
  idle : s.reader.deferred = []
  inside : ∃ outer, s.reader.modes = .code :: outer

theorem At.ready {depth : Nat} (place : s.At (depth + 1) .rightBrace) : s.Ready :=
  ⟨place.clear, place.behind.idle, _, place.behind.modes⟩

theorem At.resume {depth : Nat} (place : s.At (depth + 1) .rightBrace) :
    ∃ s', s.resumeText = .ok () s' ∧ s'.Stands depth ∧ s'.journal = s.journal := by
  have left : s.reader.resumeText = .ok () { s.reader with modes := .text :: modesOf depth } := by
    unfold Reader.resumeText
    simp only [place.behind.modes, modesOf]
  refine ⟨{ s with reader := { s.reader with modes := .text :: modesOf depth } }, ?_, ?_, rfl⟩
  · unfold resumeText
    rw [if_pos ⟨place.clear, place.behind.idle⟩, left]
  · exact .between place.clear (.inr ⟨rfl, place.behind.idle⟩)

-- What follows a text tells whether its string ends or a segment begins.
theorem At.afterText {depth : Nat} (place : s.At depth .stringText) :
    match s.peek 0 with
    | .ok a s' =>
      if a.map Token.kind = some .stringEnd then s'.Stands depth else s'.Stands (depth + 1)
    | .error e _ => e.value ≠ .unbalancedInterpolation := by
  rw [peek_nil place.clear]
  rcases place.behind with ends | plain
  · obtain ⟨t, r, read, kind, plain⟩ := next_atEnd ends
    simp only [read, Option.map_some, kind, if_true]
    exact .behind rfl (plain.behind (by rw [kind]; decide) (by rw [kind]; decide))
  · have step := next_plain plain
    revert step
    rcases s.reader.next with ⟨_ | t, r⟩ | ⟨e, r⟩
    · exact fun plain => .between place.clear (.inl plain.inCode)
    · intro found
      obtain ⟨-, noEnd, behind⟩ := found
      simp only [Option.map_some, Option.some.injEq, noEnd, if_false]
      exact .behind rfl behind
    · exact id

end TokenStream

end Frontend
