import Frontend.Proofs.Answers

-- A stream of tokens as a place in a fixed list of answers.  Where its tokens are does not show: in the
-- buffer, in the queue, put back or not read at all.  All that shows is how many tokens lie behind, and which
-- errors were answered already.

namespace Frontend

open TokenStep
open TokenStream (needed needed_eq)

namespace TokenStream

-- Taking a token removes the first answer.
theorem consume_answers (s : TokenStream) :
    match s.consume 0 with
    | .error e s' => s.answers = .error e :: s'.answers
    | .ok none _ => s.answers = []
    | .ok (some token) s' => s.answers = .ok token :: s'.answers := by
  have shown := consume_feed 0 s
  rcases ahead : s.answers with _ | ⟨e | token, rest⟩ <;>
    rcases took : s.consume 0 with ⟨_ | token', s'⟩ | ⟨e', s'⟩ <;>
    simp only [took, seen, feed, ahead, Feed.consume_nil, Feed.consume_error, Feed.consume_ok,
      EStateM.Result.ok.injEq, EStateM.Result.error.injEq, Option.some.injEq, reduceCtorEq, false_and,
      Feed.mk.injEq] at shown ⊢
  · rw [shown.1, shown.2.1]
  · rw [shown.1, shown.2.1]

-- What is answered where a token is taken again and again, going on behind errors, until there is none.
def drain (s : TokenStream) : List Answer :=
  match _took : s.consume 0 with
  | .error e s' => .error e :: s'.drain
  | .ok none _ => []
  | .ok (some token) s' => .ok token :: s'.drain
termination_by s.answers.length
decreasing_by all_goals
  have answers := s.consume_answers
  rw [_took] at answers
  rw [answers]
  exact Nat.lt_succ_self _

theorem drain_eq_answers (s : TokenStream) : s.drain = s.answers := by
  fun_induction drain s with
  | case1 s e s' took ih | case2 s s' took | case3 s token s' took ih =>
    have answers := s.consume_answers
    rw [took] at answers
    simp only [*]

end TokenStream

-- The errors, each with the number of tokens in front of it, where `before` tokens lie behind already.
def faultsFrom : Nat → List Answer → List (Nat × Located LexicalError)
  | _, [] => []
  | before, .error e :: rest => (before, e) :: faultsFrom before rest
  | before, .ok _ :: rest => faultsFrom (before + 1) rest

-- The answers without the first `count` errors.
def withoutFaults : Nat → List Answer → List Answer
  | 0, answers => answers
  | _ + 1, [] => []
  | count + 1, .error _ :: rest => withoutFaults count rest
  | count + 1, .ok token :: rest => .ok token :: withoutFaults (count + 1) rest

theorem faultsFrom_ge {before place : Nat} {e : Located LexicalError} {answers : List Answer}
    (found : (place, e) ∈ faultsFrom before answers) : before ≤ place := by
  fun_induction faultsFrom before answers with
  | case1 => cases found
  | case2 before e' rest ih =>
    rcases List.mem_cons.1 found with same | later
    · cases same
      exact Nat.le_refl _
    · exact ih later
  | case3 before t rest ih => exact Nat.le_of_succ_le (ih found)

theorem faultsFrom_tokens (before : Nat) (ts : List Token) (answers : List Answer) :
    faultsFrom before (ts.map .ok ++ answers) = faultsFrom (before + ts.length) answers := by
  induction ts generalizing before with
  | nil => rfl
  | cons t ts ih =>
    rw [List.map_cons, List.cons_append, faultsFrom, ih, List.length_cons, Nat.add_right_comm]
    rfl

theorem faultsFrom_without (count before : Nat) (answers : List Answer) :
    faultsFrom before (withoutFaults count answers) = (faultsFrom before answers).drop count := by
  fun_induction withoutFaults count answers generalizing before with
  | case1 => rfl
  | case2 => rfl
  | case3 count e rest ih => rw [ih, faultsFrom, List.drop_succ_cons]
  | case4 count token rest ih => rw [faultsFrom, ih, faultsFrom]

theorem tokensIn_without (count : Nat) (answers : List Answer) :
    tokensIn (withoutFaults count answers) = tokensIn answers := by
  fun_induction withoutFaults count answers with
  | case1 => rfl
  | case2 => rfl
  | case3 count e rest ih => exact ih
  | case4 count token rest ih => exact congrArg (token :: ·) ih

theorem withoutFaults_tokens (ts : List Token) (answers : List Answer) :
    withoutFaults 1 (ts.map .ok ++ answers) = ts.map .ok ++ withoutFaults 1 answers := by
  induction ts with
  | nil => rfl
  | cons t ts ih => rw [List.map_cons, List.cons_append, withoutFaults, ih, List.cons_append]

theorem withoutFaults_succ (count : Nat) (answers : List Answer) :
    withoutFaults (count + 1) answers = withoutFaults 1 (withoutFaults count answers) := by
  fun_induction withoutFaults count answers with
  | case1 => rfl
  | case2 => rfl
  | case3 count e rest ih => rw [withoutFaults, ih]
  | case4 count token rest ih => rw [withoutFaults, withoutFaults, ih]

-- The error in front of which no more than `count` tokens stand is the one that is met.
theorem fault_eq (count before : Nat) (answers : List Answer) :
    fault? count answers = (faultsFrom before answers).head?.bind fun (place, e) =>
      if place < before + count then some (e, withoutFaults 1 answers) else none := by
  induction answers generalizing count before with
  | nil => rw [fault_nil]; rfl
  | cons answer rest ih =>
    rcases answer with e | token
    · cases count with
      | zero => simp [fault?, faultsFrom]
      | succ count => simp [fault?, faultsFrom, withoutFaults]
    · cases count with
      | zero =>
        rw [fault?, faultsFrom]
        cases found : (faultsFrom (before + 1) rest).head? with
        | none => rfl
        | some fault =>
          have far := faultsFrom_ge (List.mem_of_mem_head? found)
          exact (if_neg (Nat.not_lt.2 (Nat.le_of_succ_le far))).symm
      | succ count =>
        rw [fault?, ih count (before + 1), faultsFrom, Nat.add_right_comm, Nat.add_assoc]
        cases (faultsFrom (before + 1) rest).head? with
        | none => rfl
        | some fault => simp only [Option.bind_some, withoutFaults]; split <;> rfl

-- Where no error is met, tokens come first.
theorem take_of_no_fault {count : Nat} {answers : List Answer} (clear : fault? count answers = none) :
    answers.take count = ((tokensIn answers).take count).map .ok := by
  fun_induction fault? count answers with
  | case1 => rfl
  | case2 => simp [tokensIn]
  | case3 => cases clear
  | case4 count token rest ih =>
    exact congrArg (.ok token :: ·) (ih (Option.map_eq_none_iff.1 clear))

-- The place that is asked for is not the greatest machine word, nor behind it.
def Request.Countable : Request → Prop
  | .peek n | .consume n => n + 1 < UInt64.size
  | .begin | .commit | .reset => True

def Reply.fault? : Reply → Option (Located LexicalError)
  | .fault e => some e
  | _ => none

structure Cursor where
  -- How many tokens lie behind,
  position : Nat
  -- how many lay behind when the position was remembered, if one is,
  remembered : Option Nat
  -- and how many errors were answered.
  faults : Nat

namespace Cursor

def start : Cursor := ⟨0, none, 0⟩

-- The error that is met on the way to the token `n` places ahead: the first one not answered yet, if it
-- stands in front of that token.
def met? (whole : List Answer) (c : Cursor) (n : Nat) : Option (Located LexicalError) :=
  match (faultsFrom 0 whole)[c.faults]? with
  | some (place, e) => if place ≤ c.position + n then some e else none
  | none => none

def respond (whole : List Answer) (c : Cursor) : Request → Reply × Cursor
  | .peek n =>
    match c.met? whole n with
    | some e => (.fault e, { c with faults := c.faults + 1 })
    | none => (.token (tokensIn whole)[c.position + n]?, c)
  | .consume n =>
    match c.met? whole n with
    | some e => (.fault e, { c with faults := c.faults + 1 })
    | none =>
      (.token (tokensIn whole)[c.position + n]?,
        { c with position := min (c.position + n + 1) (tokensIn whole).length })
  | .begin =>
    match c.remembered with
    | some _ => (.begun false, c)
    | none => (.begun true, { c with remembered := some c.position })
  | .commit => (.done, { c with remembered := none })
  | .reset => (.done, { c with position := c.remembered.getD c.position, remembered := none })

def replies (whole : List Answer) (c : Cursor) : List Request → List Reply
  | [] => []
  | request :: requests =>
    (c.respond whole request).1 :: (c.respond whole request).2.replies whole requests

-- The answers to come are those behind the cursor, and what can be put back lies between the
-- remembered position and the cursor.
structure At (whole : List Answer) (c : Cursor) (s : Feed) : Prop where
  ahead : withoutFaults c.faults whole = ((tokensIn whole).take c.position).map .ok ++ s.ahead
  inside : c.position ≤ (tokensIn whole).length
  journal : s.journal = c.remembered.map fun m => (((tokensIn whole).take c.position).drop m).reverse
  behind : ∀ m ∈ c.remembered, m ≤ c.position

variable {whole : List Answer} {c : Cursor} {s : Feed}

theorem at_start (whole : List Answer) : At whole start ⟨whole, none⟩ := by
  refine ⟨?_, Nat.zero_le _, rfl, nofun⟩
  simp only [start, withoutFaults, List.take_zero, List.map_nil, List.nil_append]

theorem At.tokens (at_ : At whole c s) : tokensIn s.ahead = (tokensIn whole).drop c.position := by
  have all := tokensIn_without c.faults whole
  rw [at_.ahead, tokensIn_tokens] at all
  have split := List.take_append_drop c.position (tokensIn whole)
  exact List.append_cancel_left (all.trans split.symm)

theorem At.length_take (at_ : At whole c s) : ((tokensIn whole).take c.position).length = c.position :=
  List.length_take_of_le at_.inside

theorem At.met (at_ : At whole c s) (n : Nat) :
    fault? (n + 1) s.ahead = (c.met? whole n).map fun e => (e, withoutFaults 1 s.ahead) := by
  have next : (faultsFrom 0 whole)[c.faults]? = (faultsFrom c.position s.ahead).head? := by
    rw [← List.head?_drop, ← faultsFrom_without, at_.ahead, faultsFrom_tokens, at_.length_take,
      Nat.zero_add]
  rw [fault_eq (n + 1) c.position, met?, next]
  cases (faultsFrom c.position s.ahead).head? with
  | none => rfl
  | some fault =>
    simp only [Option.bind_some, ← Nat.add_assoc, Nat.lt_succ_iff]
    split <;> rfl

theorem At.fault (at_ : At whole c s) :
    At whole { c with faults := c.faults + 1 } { s with ahead := withoutFaults 1 s.ahead } := by
  refine ⟨?_, at_.inside, at_.journal, at_.behind⟩
  rw [withoutFaults_succ, at_.ahead, withoutFaults_tokens]

-- Where no error is met, what is taken are the tokens that come first.
theorem taken_of_no_fault {count : Nat} {answers : List Answer} (clear : fault? count answers = none) :
    tokensIn (answers.take count) = (tokensIn answers).take count := by
  have only := tokensIn_tokens ((tokensIn answers).take count) []
  rwa [← take_of_no_fault clear, List.append_nil, show tokensIn [] = [] from rfl, List.append_nil] at only

theorem At.token (at_ : At whole c s) {n : Nat} (clear : fault? (n + 1) s.ahead = none) :
    (tokensIn (s.ahead.take (n + 1)))[n]? = (tokensIn whole)[c.position + n]? := by
  rw [taken_of_no_fault clear, List.getElem?_take_of_lt (Nat.lt_succ_self n), at_.tokens, List.getElem?_drop]

theorem At.move (at_ : At whole c s) {n : Nat} (clear : fault? (n + 1) s.ahead = none) :
    At whole { c with position := min (c.position + n + 1) (tokensIn whole).length }
      { ahead := s.ahead.drop (n + 1)
        journal := s.journal.map ((tokensIn (s.ahead.take (n + 1))).reverse ++ ·) } := by
  have passed : (tokensIn whole).take (min (c.position + n + 1) (tokensIn whole).length) =
      (tokensIn whole).take c.position ++ (tokensIn s.ahead).take (n + 1) := by
    rw [← List.take_eq_take_min, Nat.add_assoc, List.take_add, at_.tokens]
  refine ⟨?_, Nat.min_le_right _ _, ?_, fun m remembered => ?_⟩
  · rw [passed, at_.ahead, List.map_append, List.append_assoc, ← take_of_no_fault clear, List.take_append_drop]
  · rw [at_.journal, passed, taken_of_no_fault clear, Option.map_map]
    refine Option.map_congr fun m remembered => ?_
    have enough : m ≤ ((tokensIn whole).take c.position).length := by
      rw [at_.length_take]
      exact at_.behind m remembered
    rw [Function.comp_apply, List.drop_append_of_le_length enough, List.reverse_append]
  · have behind := at_.behind m remembered
    have inside := at_.inside
    exact Nat.le_min.2 ⟨by omega, by omega⟩

theorem At.reset (at_ : At whole c s) :
    At whole { c with position := c.remembered.getD c.position, remembered := none } s.reset := by
  rcases remembered : c.remembered with _ | m
  · refine ⟨?_, at_.inside, rfl, nofun⟩
    rw [Feed.reset, at_.journal, remembered]
    exact at_.ahead
  · have behind := at_.behind m remembered
    refine ⟨?_, Nat.le_trans behind at_.inside, rfl, nofun⟩
    have back : (tokensIn whole).take m ++ ((tokensIn whole).take c.position).drop m =
        (tokensIn whole).take c.position := by
      have parts := List.take_append_drop m ((tokensIn whole).take c.position)
      rwa [List.take_take, Nat.min_eq_left behind] at parts
    rw [Feed.reset, at_.journal, remembered]
    simp only [Option.map_some, Option.getD_some, List.reverse_reverse]
    rw [← List.append_assoc, ← List.map_append, back, at_.ahead]

-- What a request is answered, and where the cursor is afterwards.
theorem At.respond (at_ : At whole c s) {request : Request} (countable : request.Countable) :
    (s.respond request).1 = (c.respond whole request).1 ∧
      At whole (c.respond whole request).2 (s.respond request).2 := by
  cases request with
  | peek n =>
    have met := at_.met n
    simp only [Feed.respond, Cursor.respond, Feed.peek, needed_eq countable, met]
    cases found : c.met? whole n with
    | some e => exact ⟨rfl, at_.fault⟩
    | none =>
      rw [found] at met
      exact ⟨congrArg Reply.token (at_.token met), at_⟩
  | consume n =>
    have met := at_.met n
    simp only [Feed.respond, Cursor.respond, Feed.consume, needed_eq countable, met]
    cases found : c.met? whole n with
    | some e => exact ⟨rfl, at_.fault⟩
    | none =>
      rw [found] at met
      exact ⟨congrArg Reply.token (at_.token met), at_.move met⟩
  | begin =>
    have journal := at_.journal
    rcases remembered : c.remembered with _ | m <;> rw [remembered] at journal <;>
      simp only [Feed.respond, Cursor.respond, Feed.begin?, journal, remembered, Option.map_none,
        Option.map_some]
    · refine ⟨rfl, at_.ahead, at_.inside, ?_, fun m same => ?_⟩
      · rw [Option.map_some, List.drop_eq_nil_of_le (Nat.le_of_eq at_.length_take), List.reverse_nil]
        rfl
      · cases same
        exact Nat.le_refl _
    · exact ⟨rfl, at_⟩
  | commit => exact ⟨rfl, at_.ahead, at_.inside, rfl, fun _ same => by cases same⟩
  | reset => exact ⟨rfl, at_.reset⟩

theorem At.replies (at_ : At whole c s) {requests : List Request}
    (countable : ∀ request ∈ requests, request.Countable) : s.replies requests = c.replies whole requests := by
  induction requests generalizing c s with
  | nil => rfl
  | cons request requests ih =>
    obtain ⟨first, others⟩ := List.forall_mem_cons.1 countable
    obtain ⟨same, later⟩ := at_.respond first
    rw [Feed.replies, Cursor.replies, same, ih later others]

theorem met_some {n : Nat} {e : Located LexicalError} (met : c.met? whole n = some e) :
    ∃ place, (faultsFrom 0 whole)[c.faults]? = some (place, e) := by
  unfold met? at met
  split at met
  · next place e' found =>
    split at met <;> cases met
    exact ⟨place, found⟩
  · cases met

-- An answer that is an error is the first one not answered yet.
theorem respond_fault (whole : List Answer) (c : Cursor) (request : Request) :
    match (c.respond whole request).1.fault? with
    | some e => (∃ place, (faultsFrom 0 whole)[c.faults]? = some (place, e)) ∧
        (c.respond whole request).2.faults = c.faults + 1
    | none => (c.respond whole request).2.faults = c.faults := by
  cases request with
  | peek n | consume n =>
    simp only [respond]
    cases met : c.met? whole n with
    | some e => exact ⟨met_some met, rfl⟩
    | none => simp only [Reply.fault?]
  | begin =>
    simp only [respond]
    cases c.remembered <;> rfl
  | commit | reset => rfl

-- Errors are answered in their order, each one once at most.
theorem replies_faults (whole : List Answer) (c : Cursor) (requests : List Request) :
    (c.replies whole requests).filterMap Reply.fault? <+:
      ((faultsFrom 0 whole).drop c.faults).map Prod.snd := by
  induction requests generalizing c with
  | nil => exact List.nil_prefix
  | cons request requests ih =>
    have later := ih (c.respond whole request).2
    have first := respond_fault whole c request
    rw [Cursor.replies, List.filterMap_cons]
    cases fault : (c.respond whole request).1.fault? with
    | none =>
      rw [fault] at first
      rwa [first] at later
    | some e =>
      rw [fault] at first
      obtain ⟨⟨place, found⟩, next⟩ := first
      rw [next] at later
      obtain ⟨inside, here⟩ := List.getElem?_eq_some_iff.1 found
      rw [List.drop_eq_getElem_cons inside, here, List.map_cons]
      exact List.cons_prefix_cons.2 ⟨rfl, later⟩

end Cursor

-- A stream of tokens answers like a cursor over what its source answers token by token.
--
-- Looking and taking give the tokens at and behind the position; a remembered position comes back, or
-- is forgotten.  An error is answered where it stands in front of the token asked for and was not
-- answered yet; the cursor then stays where it is.  So the errors come in order, each one once at most.
theorem replies_follow_cursor (source : String) {requests : List Request}
    (countable : ∀ request ∈ requests, request.Countable) :
    (TokenStream.ofSource source).replies requests =
        Cursor.start.replies (TokenStream.ofSource source).drain requests ∧
      ((TokenStream.ofSource source).replies requests).filterMap Reply.fault? <+:
        (faultsFrom 0 (TokenStream.ofSource source).drain).map Prod.snd := by
  have same : (TokenStream.ofSource source).replies requests =
      Cursor.start.replies (TokenStream.ofSource source).drain requests := by
    rw [TokenStream.drain_eq_answers, ← TokenStream.replies_feed]
    exact (Cursor.at_start _).replies countable
  refine ⟨same, ?_⟩
  rw [same]
  exact Cursor.replies_faults _ Cursor.start requests

-- Looking past an error, twice, and putting back what was taken behind it.
theorem replies_behind_error :
    let s := TokenStream.ofSource "a # b c"
    let requests := [.begin, .peek 1, .consume 1, .reset, .peek 2, .consume 3, .consume 0]
    (∀ request ∈ requests, request.Countable) ∧ s.replies requests = Cursor.start.replies s.drain requests ∧
      (s.replies requests).filterMap Reply.fault? <+: (faultsFrom 0 s.drain).map Prod.snd := by
  intro s requests
  have countable : ∀ request ∈ requests, request.Countable := by
    simp [requests, Request.Countable, UInt64.size]
  exact ⟨countable, replies_follow_cursor _ countable⟩

-- For the greatest word no token is needed, so that none is taken and the name is still to come.
theorem greatest_place_takes_nothing :
    let s := TokenStream.ofSource "a"
    let requests := [.consume 18446744073709551615, .consume 0]
    s.replies requests ≠ Cursor.start.replies s.drain requests := by
  intro s requests same
  have listed : s.drain = [.ok (.ofChars .identifier none 0 ['a'])] := by
    have first := s.consume_answers
    have second := (after (s.consume 0)).consume_answers
    rw [TokenStream.drain_eq_answers]
    exact first.trans (congrArg _ second)
  have kept : s.replies requests = [.token none, .token (some (.ofChars .identifier none 0 ['a']))] := rfl
  have passed : Cursor.start.replies [.ok (.ofChars .identifier none 0 ['a'])] requests =
      [.token none, .token none] := rfl
  rw [listed, kept, passed] at same
  cases same

end Frontend
