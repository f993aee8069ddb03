import Frontend.Proofs.View

-- The plainest source: a list of the answers that are still to come.  What a source answers is all that a rule
-- can see of it, so that this one stands for all others.

namespace Frontend

-- What comes next in a source: a token, or an error in the place of one.
abbrev Answer := Except (Located LexicalError) Token

-- The answers still to come, and the tokens that can be put back, the last one first.
structure Feed where
  ahead : List Answer
  journal : Option (List Token)

-- The first error among the next `count` answers, and the answers without it.
def fault? : Nat → List Answer → Option (Located LexicalError × List Answer)
  | 0, _ => none
  | _, [] => none
  | _ + 1, .error e :: rest => some (e, rest)
  | count + 1, .ok token :: rest =>
    (fault? count rest).map fun (e, others) => (e, .ok token :: others)

def tokensIn (answers : List Answer) : List Token := answers.filterMap Except.toOption

namespace Feed

open TokenStep
open TokenStream (needed)

-- The token `n` places ahead; an error before it is answered instead, once.
def peek (n : Nat) (s : Feed) : TokenStep Feed (Option Token) :=
  match fault? (needed n) s.ahead with
  | some (e, rest) => .error e { s with ahead := rest }
  | none => .ok (tokensIn (s.ahead.take (needed n)))[n]? s

def consume (n : Nat) (s : Feed) : TokenStep Feed (Option Token) :=
  match fault? (needed n) s.ahead with
  | some (e, rest) => .error e { s with ahead := rest }
  | none =>
    .ok (tokensIn (s.ahead.take (needed n)))[n]?
      { ahead := s.ahead.drop (needed n)
        journal := s.journal.map ((tokensIn (s.ahead.take (needed n))).reverse ++ ·) }

def begin? (s : Feed) : Option Feed :=
  match s.journal with
  | some _ => none
  | none => some { s with journal := some [] }

def commit (s : Feed) : Feed := { s with journal := none }

def reset (s : Feed) : Feed :=
  { ahead := (s.journal.getD []).reverse.map .ok ++ s.ahead, journal := none }

variable {token : Token} {rest : List Answer} {journal : Option (List Token)}
  {e : Located LexicalError}

theorem consume_nil : consume 0 ⟨[], journal⟩ = .ok none ⟨[], journal⟩ := by
  cases journal <;> rfl

theorem consume_ok : consume 0 ⟨.ok token :: rest, journal⟩ =
    .ok (some token) ⟨rest, journal.map (token :: ·)⟩ := rfl

theorem consume_error : consume 0 ⟨.error e :: rest, journal⟩ = .error e ⟨rest, journal⟩ := rfl

instance : TokenSource Feed where
  look := peek 0
  take := consume 0
  begin? := begin?
  commit := commit
  reset := reset
  resumeText s := .ok () s
  weight s := s.ahead.length
  room s := s.ahead.length + (s.journal.getD []).length
  take_of_look {s token s'} looked := by
    obtain ⟨_ | ⟨_ | _, _⟩, _⟩ := s <;> cases looked
    · exact ⟨_, consume_nil⟩
    · exact ⟨_, consume_ok⟩
  weight_le_room _ := Nat.le_add_right _ _
  weight_look_le s := by
    obtain ⟨_ | ⟨_ | _, _⟩, _⟩ := s
    · exact Nat.le_refl _
    · exact Nat.le_succ _
    · exact Nat.le_refl _
  room_look_le s := by
    obtain ⟨_ | ⟨_ | _, _⟩, _⟩ := s
    · exact Nat.le_refl _
    · exact Nat.add_le_add_right (Nat.le_succ _) _
    · exact Nat.le_refl _
  weight_take_le s := by
    obtain ⟨_ | ⟨_ | _, _⟩, _⟩ := s
    · rw [consume_nil]; exact Nat.le_refl _
    · exact Nat.le_succ _
    · exact Nat.le_succ _
  weight_take_lt {s token s'} taken := by
    obtain ⟨_ | ⟨_ | _, _⟩, _⟩ := s
    · rw [consume_nil] at taken; cases taken
    · rw [consume_error] at taken; cases taken
    · rw [consume_ok] at taken; cases taken; exact Nat.lt_succ_self _
  room_take_le s := by
    obtain ⟨_ | ⟨_ | _, _⟩, _ | _⟩ := s
    · exact Nat.le_refl _
    · exact Nat.le_refl _
    · exact Nat.le_succ _
    · exact Nat.add_le_add_right (Nat.le_succ _) _
    · exact Nat.le_succ _
    -- A token that is taken while a position is remembered can be put back.
    · exact Nat.le_of_eq (Nat.succ_add_eq_add_succ _ _).symm
  room_begin_le {s s'} begun := by
    obtain ⟨_, _ | _⟩ := s <;> cases begun
    exact Nat.le_refl _
  weight_commit_le _ := Nat.le_refl _
  weight_reset_le s := by
    simp only [reset, List.length_append, List.length_map, List.length_reverse]
    omega
  weight_resumeText_le _ := Nat.le_refl _

end Feed

namespace Feed

open Grammar TokenSource TokenStep

instance : RemembersOnce Feed where
  look s := by
    obtain ⟨_ | ⟨_ | _, _⟩, _ | _⟩ := s <;> rfl
  take s := by
    obtain ⟨_ | ⟨_ | _, _⟩, _ | _⟩ := s <;> rfl
  begins {s s'} begun := by
    obtain ⟨_, _ | _⟩ := s <;> cases begun
    rfl
  commit _ := rfl
  reset _ := rfl

theorem held_iff {s : Feed} : Held s ↔ ∃ tokens, s.journal = some tokens := by
  obtain ⟨ahead, _ | tokens⟩ := s
  · exact ⟨nofun, nofun⟩
  · exact ⟨fun _ => ⟨tokens, rfl⟩, fun _ => rfl⟩

theorem held_some (ahead : List Answer) (tokens : List Token) :
    Held (S := Feed) ⟨ahead, some tokens⟩ := rfl

section Steps

variable {token : Token} {rest : List Answer} {journal : Option (List Token)}
  {e : Located LexicalError} {kind : TokenKind} {α β : Type} {r : Rule Feed α} {k : α → Rule Feed β}
  {eof : Span} {s s' : Feed}

theorem bind_ok {a : α} (ran : r eof s = .ok a s') : (r >>= k) eof s = k a eof s' := by
  simp only [Bind.bind, ReaderT.bind, EStateM.bind, ran]

theorem map_ok {a : α} {f : α → β} (ran : r eof s = .ok a s') : (f <$> r) eof s = .ok (f a) s' := by
  simp only [Functor.map, EStateM.map, ran]

theorem current_ok : current (σ := Feed) eof ⟨.ok token :: rest, journal⟩ =
    .ok (some token) ⟨.ok token :: rest, journal⟩ := rfl

theorem advance_ok : advance (σ := Feed) eof ⟨.ok token :: rest, journal⟩ =
    .ok token ⟨rest, journal.map (token :: ·)⟩ := rfl

theorem currentKind_ok : currentKind (σ := Feed) eof ⟨.ok token :: rest, journal⟩ =
    .ok (some token.kind) ⟨.ok token :: rest, journal⟩ := rfl

theorem isNext_found (found : token.kind = kind) : isNext kind (σ := Feed) eof
    ⟨.ok token :: rest, journal⟩ = .ok true ⟨.ok token :: rest, journal⟩ := by
  subst found
  simp only [isNext, bind_ok currentKind_ok, beq_self_eq_true]
  rfl

theorem isNext_other (other : token.kind ≠ kind) : isNext kind (σ := Feed) eof
    ⟨.ok token :: rest, journal⟩ = .ok false ⟨.ok token :: rest, journal⟩ := by
  have differs : (some token.kind == some kind) = false := by simp [other]
  simp only [isNext, bind_ok currentKind_ok, differs]
  rfl

theorem accept_found (found : token.kind = kind) : accept? kind (σ := Feed) eof
    ⟨.ok token :: rest, journal⟩ = .ok (some token) ⟨rest, journal.map (token :: ·)⟩ := by
  simp only [accept?, bind_ok (isNext_found found), if_true, bind_ok advance_ok]
  rfl

theorem accept_other (other : token.kind ≠ kind) : accept? kind (σ := Feed) eof
    ⟨.ok token :: rest, journal⟩ = .ok none ⟨.ok token :: rest, journal⟩ := by
  simp only [accept?, bind_ok (isNext_other other)]
  rfl

theorem expect_found (found : token.kind = kind) : expect kind (σ := Feed) eof
    ⟨.ok token :: rest, journal⟩ = .ok token ⟨rest, journal.map (token :: ·)⟩ := by
  simp only [expect, bind_ok current_ok, found, if_true, advance_ok]

theorem identifier_found (found : token.kind = .identifier) : identifier (σ := Feed) eof
    ⟨.ok token :: rest, journal⟩ = .ok token.text ⟨rest, journal.map (token :: ·)⟩ := by
  simp only [identifier, bind_ok (expect_found found)]
  rfl

end Steps

end Feed

end Frontend
