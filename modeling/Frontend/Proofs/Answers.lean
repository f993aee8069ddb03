import Frontend.Proofs.Feed

-- All that a stream of tokens can answer is laid out in advance: a list of answers, whatever of it is in
-- the buffer, in the queue of the reader or not read at all.

namespace Frontend

open TokenStep

theorem fault_tokens (ts : List Token) (count : Nat) (rest : List Answer) :
    fault? (ts.length + count) (ts.map .ok ++ rest) =
      (fault? count rest).map fun (e, others) => (e, ts.map .ok ++ others) := by
  induction ts with
  | nil => simp
  | cons t ts ih =>
    rw [List.length_cons, Nat.succ_add, List.map_cons, List.cons_append, fault?, ih, Option.map_map]
    rfl

theorem fault_none {ts : List Token} {count : Nat} (short : count ≤ ts.length) (rest : List Answer) :
    fault? count (ts.map .ok ++ rest) = none := by
  induction ts generalizing count with
  | nil =>
    cases Nat.le_zero.1 short
    rfl
  | cons t ts ih =>
    cases count with
    | zero => rfl
    | succ count =>
      rw [List.map_cons, List.cons_append, fault?, ih (Nat.le_of_succ_le_succ short)]
      rfl

theorem fault_nil (count : Nat) : fault? count [] = none := by
  cases count <;> rfl

theorem tokensIn_tokens (ts : List Token) (rest : List Answer) :
    tokensIn (ts.map .ok ++ rest) = ts ++ tokensIn rest := by
  induction ts with
  | nil => rfl
  | cons t ts ih =>
    rw [List.map_cons, List.cons_append, List.cons_append, ← ih]
    rfl

namespace Reader

-- What a reader answers from here to the end, going on behind errors.
def answers (r : Reader) : List Answer :=
  match _read : r.next with
  | .error e r' => .error e :: answers r'
  | .ok none _ => []
  | .ok (some token) r' => .ok token :: answers r'
termination_by r.weight
decreasing_by all_goals
  have below := r.next_below
  rw [_read] at below
  exact below

variable {r r' : Reader}

theorem answers_error {e : Located LexicalError} (read : r.next = .error e r') :
    r.answers = .error e :: r'.answers := by
  rw [answers]
  split <;> rename_i same <;> cases read.symm.trans same
  rfl

theorem answers_end (read : r.next = .ok none r') : r.answers = [] := by
  rw [answers]
  split <;> rename_i same <;> cases read.symm.trans same
  rfl

theorem answers_token {token : Token} (read : r.next = .ok (some token) r') :
    r.answers = .ok token :: r'.answers := by
  rw [answers]
  split <;> rename_i same <;> cases read.symm.trans same
  rfl

end Reader

namespace TokenStream

-- The answers still to come: what is in the buffer comes before what is not read yet.
def answers (s : TokenStream) : List Answer := s.lookahead.map .ok ++ s.reader.answers

def feed (s : TokenStream) : Feed := ⟨s.answers, s.journal⟩

variable {s s' : TokenStream}

-- Pulling moves tokens into the buffer, up to the first error on the way.
theorem pull_answers (count : Nat) (s : TokenStream) :
    match s.pull count with
    | .error e s' => s'.journal = s.journal ∧
        fault? (s.lookahead.length + count) s.answers = some (e, s'.answers)
    | .ok () s' => s'.feed = s.feed ∧ fault? (s.lookahead.length + count) s.answers = none ∧
        (s.lookahead.length + count ≤ s'.lookahead.length ∨ s'.reader.answers = []) := by
  induction count generalizing s with
  | zero => exact ⟨rfl, fault_none (Nat.le_refl _) _, .inl (Nat.le_refl _)⟩
  | succ count ih =>
    rcases read : s.reader.next with ⟨_ | token, reader⟩ | ⟨e, reader⟩
    · simp only [pull, read]
      have ended := Reader.answers_end (Reader.next_end read)
      have same : s.reader.answers = [] := Reader.answers_end read
      refine ⟨?_, ?_, .inr ended⟩
      · simp only [feed, answers, ended, same]
      · rw [answers, same, fault_tokens, fault_nil]
        rfl
    · simp only [pull, read]
      have later := ih { s with reader := reader, lookahead := s.lookahead ++ [token] }
      have kept : answers { s with reader := reader, lookahead := s.lookahead ++ [token] } = s.answers := by
        simp only [answers, Reader.answers_token read, List.map_append, List.map_cons, List.map_nil,
          List.append_assoc, List.cons_append, List.nil_append]
      simp only [feed, kept, List.length_append, List.length_cons, List.length_nil, Nat.add_assoc,
        Nat.zero_add, Nat.add_comm 1 count] at later
      exact later
    · simp only [pull, read]
      refine ⟨trivial, ?_⟩
      rw [answers, fault_tokens, Reader.answers_error read]
      rfl

theorem fill_answers (count : Nat) (s : TokenStream) :
    match s.fill count with
    | .error e s' => s'.journal = s.journal ∧ fault? count s.answers = some (e, s'.answers)
    | .ok () s' => s'.feed = s.feed ∧ fault? count s.answers = none ∧
        (count ≤ s'.lookahead.length ∨ s'.reader.answers = []) := by
  rw [fill_eq_pull]
  have pulled := pull_answers (count - s.lookahead.length) s
  rcases Nat.le_total count s.lookahead.length with enough | short
  · rw [Nat.sub_eq_zero_of_le enough]
    exact ⟨rfl, fault_none enough _, .inl enough⟩
  · rwa [Nat.add_sub_cancel' short] at pulled

-- What was asked for is in the buffer, or all that is left is.
theorem lookahead_enough {count : Nat} (enough : count ≤ s.lookahead.length ∨ s.reader.answers = []) :
    tokensIn (s.answers.take count) = s.lookahead.take count ∧
      s.answers.drop count = (s.lookahead.drop count).map .ok ++ s.reader.answers := by
  have taken : s.answers.take count = (s.lookahead.take count).map .ok ++ [] := by
    rcases enough with long | ended
    · rw [answers, List.take_append_of_le_length (by simpa using long), List.map_take, List.append_nil]
    · rw [answers, ended, List.append_nil, List.append_nil, List.map_take]
  refine ⟨?_, ?_⟩
  · rw [taken, tokensIn_tokens]
    exact List.append_nil _
  · rcases enough with long | ended
    · rw [answers, List.drop_append_of_le_length (by simpa using long), List.map_drop]
    · rw [answers, ended, List.append_nil, List.append_nil, List.map_drop]

theorem peek_feed (n : Nat) (s : TokenStream) : seen feed (s.peek n) = s.feed.peek n := by
  have filled := fill_answers (needed n) s
  unfold peek
  cases ran : s.fill (needed n) with
  | error e s' =>
    simp only [ran] at filled
    simp only [seen, Feed.peek, feed, filled.2, filled.1]
  | ok _ s' =>
    simp only [ran] at filled
    obtain ⟨same, clear, enough⟩ := filled
    have ahead : s'.answers = s.answers := congrArg Feed.ahead same
    have tokens := (lookahead_enough enough).1
    rw [ahead] at tokens
    simp only [seen, same, Feed.peek]
    simp only [feed, clear, tokens]

theorem consume_feed (n : Nat) (s : TokenStream) : seen feed (s.consume n) = s.feed.consume n := by
  have filled := fill_answers (needed n) s
  unfold consume
  cases ran : s.fill (needed n) with
  | error e s' =>
    simp only [ran] at filled
    simp only [seen, Feed.consume, feed, filled.2, filled.1]
  | ok _ s' =>
    simp only [ran] at filled
    obtain ⟨same, clear, enough⟩ := filled
    have ahead : s'.answers = s.answers := congrArg Feed.ahead same
    have journal : s'.journal = s.journal := congrArg Feed.journal same
    obtain ⟨tokens, left⟩ := lookahead_enough enough
    rw [ahead] at tokens left
    simp only [seen, Feed.consume, feed, clear, tokens, journal, left]
    simp only [answers]

theorem begin_feed (s : TokenStream) : s.begin?.map feed = s.feed.begin? := by
  unfold begin? Feed.begin?
  rcases s with ⟨_, _, _ | _⟩ <;> rfl

theorem commit_feed (s : TokenStream) : s.commit.feed = s.feed.commit := rfl

theorem reset_feed (s : TokenStream) : s.reset.feed = s.feed.reset := by
  simp only [feed, reset, Feed.reset, answers, List.map_append, List.append_assoc]

end TokenStream

namespace TokenStream

theorem view_feed : Grammar.View feed where
  look := peek_feed 0
  take := consume_feed 0
  begins := begin_feed
  commit := commit_feed
  reset := reset_feed

instance : Grammar.RemembersOnce TokenStream := view_feed.remembersOnce

end TokenStream

inductive Request where
  | peek (n : Nat)
  | consume (n : Nat)
  | begin
  | commit
  | reset

inductive Reply where
  | token (token : Option Token)
  | fault (error : Located LexicalError)
  -- Whether the position is remembered now.
  | begun (fresh : Bool)
  | done

def replyTo {σ : Type} : TokenStep σ (Option Token) → Reply × σ
  | .ok token s => (.token token, s)
  | .error e s => (.fault e, s)

def TokenStream.respond (s : TokenStream) : Request → Reply × TokenStream
  | .peek n => replyTo (s.peek n)
  | .consume n => replyTo (s.consume n)
  | .begin => (.begun s.begin?.isSome, s.begin?.getD s)
  | .commit => (.done, s.commit)
  | .reset => (.done, s.reset)

def Feed.respond (s : Feed) : Request → Reply × Feed
  | .peek n => replyTo (s.peek n)
  | .consume n => replyTo (s.consume n)
  | .begin => (.begun s.begin?.isSome, s.begin?.getD s)
  | .commit => (.done, s.commit)
  | .reset => (.done, s.reset)

def TokenStream.replies (s : TokenStream) : List Request → List Reply
  | [] => []
  | request :: requests => (s.respond request).1 :: (s.respond request).2.replies requests

def Feed.replies (s : Feed) : List Request → List Reply
  | [] => []
  | request :: requests => (s.respond request).1 :: (s.respond request).2.replies requests

theorem replyTo_seen {σ τ : Type} (f : σ → τ) (step : TokenStep σ (Option Token)) :
    replyTo (seen f step) = (replyTo step).map id f := by
  cases step <;> rfl

namespace TokenStream

theorem respond_feed (request : Request) (s : TokenStream) :
    s.feed.respond request = (s.respond request).map id feed := by
  cases request with
  | peek n => rw [Feed.respond, ← peek_feed, replyTo_seen]; rfl
  | consume n => rw [Feed.respond, ← consume_feed, replyTo_seen]; rfl
  | begin =>
    simp only [Feed.respond, respond, ← begin_feed]
    cases s.begin? <;> rfl
  | commit => rfl
  | reset => rw [Feed.respond, ← reset_feed]; rfl

theorem replies_feed (requests : List Request) (s : TokenStream) :
    s.feed.replies requests = s.replies requests := by
  induction requests generalizing s with
  | nil => rfl
  | cons request requests ih =>
    rw [Feed.replies, replies, respond_feed, ← ih]
    rfl

end TokenStream

end Frontend
