import Frontend.Token.Outcomes
import Frontend.Token.Source
import Frontend.Token.Stream

-- How far reading can still go.  The weight of a reader bounds the number of tokens it still hands out:
-- every token makes it smaller, and nothing makes it greater.

namespace Frontend

open Text

-- An open text still owes two tokens: itself and the end of its string.
def Mode.weight : Mode → Nat
  | .text => 2
  | .code => 0

def Mode.owed : List Mode → Nat
  | [] => 0
  | mode :: outer => mode.weight + owed outer

namespace Reader

-- A character counts three, so that the quote that opens a string outweighs its own token and the two
-- that the text behind it still owes.
def weight (r : Reader) : Nat :=
  r.deferred.length + 3 * r.rest.length + Mode.owed r.modes

-- The weight of what is left to read after a step, at most `bound`, and below it if a token or an error
-- came.
def StepBelow (bound : Nat) : Step (Option Token) → Prop
  | .ok (some _) r => r.weight < bound
  | .ok none r => r.weight ≤ bound
  | .error _ r => r.weight < bound

end Reader

theorem splitText_length (cs : List Char) :
    match (splitText cs).2 with
    | .endOfInput => True
    | .quote rest => rest.length + 1 ≤ cs.length
    | .segment rest => rest.length + 2 ≤ cs.length := by
  fun_induction splitText cs <;> grind

theorem length_dropWhile_le {α : Type} (p : α → Bool) (xs : List α) :
    (xs.dropWhile p).length ≤ xs.length :=
  (List.dropWhile_sublist p).length_le

theorem symbol?_length {c : Char} {cs : List Char} {kind : TokenKind} {text rest : List Char}
    (found : symbol? c cs = some (kind, text, rest)) : rest.length ≤ cs.length := by
  rcases symbol_cases found with ⟨d, -, -, rfl⟩ | ⟨-, -, -, rfl⟩
  · exact Nat.le_succ _
  · exact Nat.le_refl _

theorem Numeral.ofChars_length (c : Char) (cs : List Char) :
    match Numeral.ofChars c cs with
    | .integer _ rest => rest.length ≤ cs.length
    | .double _ _ rest => rest.length ≤ cs.length
    | .range _ rest => rest.length + 2 ≤ cs.length := by
  have dropped := length_dropWhile_le Char.isDigit cs
  fun_cases Numeral.ofChars c cs with
  | case1 _ rest same => simpa only [same, List.length_cons] using dropped
  | case2 _ d rest _ same =>
    have := length_dropWhile_le Char.isDigit rest
    simp only [same, List.length_cons] at dropped
    exact Nat.le_trans this (by omega)
  | case3 _ d rest _ same => simpa only [same, List.length_cons] using dropped
  | case4 => exact dropped

namespace Reader

theorem weight_skipBlanks_le (r : Reader) : r.skipBlanks.weight ≤ r.weight := by
  have := length_dropWhile_le isBlank r.rest
  simp only [skipBlanks, moveTo, weight]
  omega

theorem readText_below (r : Reader) (outer : List Mode) (idle : r.deferred = [])
    (inside : r.modes = .text :: outer) : StepBelow r.weight (r.readText outer) := by
  have short := splitText_length r.rest
  have outcome := r.readText_outcome outer
  generalize r.readText outer = step at outcome ⊢
  cases outcome with
  | unclosed found | closed found | segment found =>
    simp only [found, StepBelow, weight, idle, inside, List.length_cons, List.length_nil,
      Mode.owed, Mode.weight] at short ⊢
    omega

theorem readRange_below (r : Reader) (digits rest : List Char) (bound : Nat)
    (room : 3 * rest.length + 6 + Mode.owed r.modes < bound)
    (idle : r.deferred = []) : StepBelow bound (r.readRange digits rest) := by
  have := length_dropWhile_le Char.isDigit rest
  have outcome := r.readRange_outcome digits rest
  generalize r.readRange digits rest = step at outcome ⊢
  cases outcome <;> simp only [StepBelow, weight, moveTo, idle, List.length_cons, List.length_nil] <;> omega

theorem readToken_below (r : Reader) (c : Char) (cs : List Char) (idle : r.deferred = [])
    (front : r.rest = c :: cs) : StepBelow r.weight (r.readToken c cs) := by
  have size : r.weight = 3 * cs.length + 3 + Mode.owed r.modes := by
    simp only [weight, idle, front, List.length_cons, List.length_nil]; omega
  rw [size]
  have number := Numeral.ofChars_length c cs
  have outcome := r.readToken_outcome c cs
  generalize r.readToken c cs = step at outcome ⊢
  cases outcome with
  | symbol found =>
    have := symbol?_length found
    simp only [StepBelow, weight, moveTo, idle, List.length_nil]; omega
  | quote => simp only [StepBelow, weight, moveTo, idle, List.length_nil, Mode.owed, Mode.weight]; omega
  | word =>
    have := length_dropWhile_le isAlphanumeric cs
    simp only [StepBelow, weight, moveTo, idle, List.length_nil]; omega
  | range _ found read =>
    rw [found] at number
    rw [← read]
    exact readRange_below r _ _ _ (by dsimp only at number; omega) idle
  | double _ found | integer _ found | great _ found =>
    rw [found] at number
    simp only [StepBelow, weight, moveTo, idle, List.length_nil] at number ⊢; omega
  | unexpected => simp only [StepBelow, weight, moveTo, idle, List.length_nil]; omega

-- Every token and every error makes the weight smaller, and the end does not make it greater.
theorem next_below (r : Reader) : StepBelow r.weight r.next := by
  have skipped := weight_skipBlanks_le r
  have outcome := r.next_outcome
  generalize r.next = step at outcome ⊢
  cases outcome with
  | waiting waits => simp only [StepBelow, weight, waits, List.length_cons]; omega
  | text idle inside read => exact read ▸ readText_below r _ idle inside
  | ended => exact skipped
  | token idle _ front read =>
    have below := readToken_below r.skipBlanks _ _ idle front
    rw [read] at below
    rcases step with ⟨_ | t, r'⟩ | ⟨e, r'⟩
    · exact Nat.le_trans below skipped
    · exact Nat.lt_of_lt_of_le below skipped
    · exact Nat.lt_of_lt_of_le below skipped

-- Only the end of the input gives no token.
theorem readText_some {r r' : Reader} {outer : List Mode} {token : Option Token}
    (read : r.readText outer = .ok token r') : token ≠ none := by
  have outcome := r.readText_outcome outer
  rw [read] at outcome
  cases outcome <;> exact Option.some_ne_none _

theorem readRange_some {r r' : Reader} {digits rest : List Char} {token : Option Token}
    (read : r.readRange digits rest = .ok token r') : token ≠ none := by
  have outcome := r.readRange_outcome digits rest
  rw [read] at outcome
  cases outcome <;> exact Option.some_ne_none _

theorem readToken_some {r r' : Reader} {c : Char} {cs : List Char} {token : Option Token}
    (read : r.readToken c cs = .ok token r') : token ≠ none := by
  have outcome := r.readToken_outcome c cs
  rw [read] at outcome
  cases outcome with
  | range _ _ read => exact readRange_some read
  | _ => exact Option.some_ne_none _

-- Outside of all text, a reader with nothing left stays where it is.
theorem next_empty {r : Reader} (idle : r.deferred = [])
    (outside : ∀ outer, r.modes = .text :: outer → False) (empty : r.rest = []) :
    r.next = .ok none r := by
  have still : r.skipBlanks = r := by
    cases r; cases empty; rfl
  unfold next
  split
  · next waiting => rw [idle] at waiting; cases waiting
  · split
    · next inside => exact (outside _ inside).elim
    · simp only [still, empty]

theorem next_end {r r' : Reader} (ended : r.next = .ok none r') : r'.next = .ok none r' := by
  have outcome := r.next_outcome
  rw [ended] at outcome
  cases outcome with
  | text _ _ read => exact absurd rfl (readText_some read)
  | ended idle code empty => exact next_empty idle code empty
  | token _ _ _ read => exact absurd rfl (readToken_some read)

theorem weight_resumeText_le (r : Reader) :
    match r.resumeText with
    | .ok _ r' => r'.weight ≤ r.weight
    | .error _ r' => r'.weight ≤ r.weight := by
  unfold resumeText
  simp only
  split <;> rename_i same <;> split at same <;> cases same <;>
    simp only [weight, *, Mode.owed] <;> omega

end Reader

namespace TokenStream

-- A bound on the tokens that can still be taken.  What the journal holds does not count: it comes
-- back only through `reset`.
def weight (s : TokenStream) : Nat := s.lookahead.length + s.reader.weight

open TokenStep

theorem weight_pull_le (count : Nat) (s : TokenStream) :
    (after (s.pull count)).weight ≤ s.weight := by
  induction count generalizing s with
  | zero => exact Nat.le_refl _
  | succ count ih =>
    have below := s.reader.next_below
    unfold pull
    split <;> rename_i same <;> rw [same] at below <;> simp only [Reader.StepBelow] at below
    · simp only [after, weight]; omega
    · simp only [after, weight]; omega
    · refine Nat.le_trans (ih _) ?_
      simp only [weight, List.length_append, List.length_cons, List.length_nil]; omega

theorem weight_fill_le (count : Nat) (s : TokenStream) :
    (after (s.fill count)).weight ≤ s.weight :=
  weight_pull_le _ s

theorem weight_peek_le (n : Nat) (s : TokenStream) : (after (s.peek n)).weight ≤ s.weight := by
  have filled := weight_fill_le (needed n) s
  unfold peek
  split <;> rename_i same <;> simpa only [same, after] using filled

theorem weight_consume_le (n : Nat) (s : TokenStream) :
    (after (s.consume n)).weight ≤ s.weight := by
  have filled := weight_fill_le (needed n) s
  unfold consume
  split <;> rename_i same <;> simp only [same, after] at filled
  · exact filled
  · simp only [after, weight, List.length_drop] at filled ⊢; omega

theorem weight_consume_lt {n : Nat} {s s' : TokenStream} {token : Token}
    (taken : s.consume n = .ok (some token) s') : s'.weight < s.weight := by
  have filled := weight_fill_le (needed n) s
  unfold consume at taken
  split at taken <;> rename_i same <;> simp only [same, after] at filled
  · cases taken
  · next s₁ =>
    simp only [EStateM.Result.ok.injEq] at taken
    obtain ⟨present, rfl⟩ := taken
    have inside : n < (s₁.lookahead.take (needed n)).length := (List.getElem?_eq_some_iff.1 present).1
    simp only [weight, List.length_drop, List.length_take] at filled inside ⊢
    omega

theorem weight_resumeText_le (s : TokenStream) : (after s.resumeText).weight ≤ s.weight := by
  have left := s.reader.weight_resumeText_le
  unfold resumeText
  split
  · split <;> rename_i same <;> simp only [same] at left <;> simp only [after, weight] <;> omega
  · exact Nat.le_refl _

-- A bound on the tokens that can be taken after a reset: the journal counts too.
def room (s : TokenStream) : Nat := s.weight + (s.journal.getD []).length

theorem journal_pull (count : Nat) (s : TokenStream) :
    (after (s.pull count)).journal = s.journal := by
  induction count generalizing s with
  | zero => rfl
  | succ count ih =>
    unfold pull
    split
    · rfl
    · rfl
    · exact ih _

theorem room_peek_le (n : Nat) (s : TokenStream) : (after (s.peek n)).room ≤ s.room := by
  have lighter := weight_peek_le n s
  have kept : (after (s.peek n)).journal = s.journal := by
    have := journal_pull (needed n - (s.lookahead.take (needed n)).length) s
    unfold peek fill
    split <;> rename_i same <;> simpa only [same, after] using this
  rw [room, kept, room]
  omega

theorem room_consume_le (n : Nat) (s : TokenStream) : (after (s.consume n)).room ≤ s.room := by
  have filled := weight_fill_le (needed n) s
  have kept := journal_pull (needed n - (s.lookahead.take (needed n)).length) s
  unfold consume
  unfold fill at filled ⊢
  split <;> rename_i same <;> simp only [same, after] at filled kept
  · simp only [after, room, kept]; omega
  · next s₁ =>
    simp only [after, room, weight, kept, List.length_drop] at filled ⊢
    -- What leaves the lookahead is what the journal gains.
    cases s.journal with
    | none => simp only [Option.map_none, Option.getD_none, List.length_nil]; omega
    | some taken =>
      simp only [Option.map_some, Option.getD_some, List.length_append, List.length_reverse,
        List.length_take]
      omega

-- Pulling either brings the tokens asked for or reaches the end.
theorem pull_length {count : Nat} {s s' : TokenStream} (pulled : s.pull count = .ok () s') :
    s'.lookahead.length = s.lookahead.length + count ∨ s'.reader.next = .ok none s'.reader := by
  induction count generalizing s with
  | zero => cases pulled; exact .inl rfl
  | succ count ih =>
    unfold pull at pulled
    split at pulled
    · cases pulled
    · next ended => cases pulled; exact .inr (Reader.next_end ended)
    · rcases ih pulled with long | ended
      · simp only [List.length_append, List.length_cons, List.length_nil] at long
        exact .inl (by omega)
      · exact .inr ended

theorem consume_of_peek {s s' : TokenStream} {token : Option Token}
    (looked : s.peek 0 = .ok token s') : ∃ s'', s'.consume 0 = .ok token s'' := by
  unfold peek at looked
  split at looked
  · cases looked
  · next filled =>
    cases looked
    rw [needed_zero, fill_eq_pull] at filled
    cases front : s'.lookahead with
    | cons first others =>
      exact ⟨_, by simp only [consume, needed_zero, fill_eq_pull, front, List.length_cons,
        Nat.sub_eq_zero_of_le (Nat.le_add_left 1 _), pull]; rfl⟩
    | nil =>
      rcases pull_length filled with long | ended
      · simp only [front, List.length_nil] at long
        omega
      · exact ⟨_, by simp only [consume, needed_zero, fill_eq_pull, front, List.length_nil, pull, ended]; rfl⟩

instance : TokenSource TokenStream where
  look := peek 0
  take := consume 0
  begin? := begin?
  commit := commit
  reset := reset
  resumeText := resumeText
  weight := weight
  room := room
  take_of_look := consume_of_peek
  weight_le_room _ := Nat.le_add_right _ _
  weight_look_le := weight_peek_le 0
  room_look_le := room_peek_le 0
  weight_take_le := weight_consume_le 0
  weight_take_lt := weight_consume_lt
  room_take_le := room_consume_le 0
  room_begin_le {s s'} begun := by
    unfold begin? at begun
    split at begun
    · cases begun
    · cases begun; exact Nat.le_refl _
  weight_commit_le _ := Nat.le_refl _
  weight_reset_le s := by
    simp only [reset, room, weight, List.length_append, List.length_reverse]
    omega
  weight_resumeText_le := weight_resumeText_le

end TokenStream

end Frontend
