import Frontend.Token.Basic

-- What reading a tree asks of its tokens: to look at the next one, to take it, to try something and go
-- back, and to leave a segment of a string.

namespace Frontend

-- What a step on `σ` gives, and what it leaves; a failure leaves something as well.
abbrev TokenStep (σ α : Type) := EStateM.Result (Located LexicalError) σ α

def TokenStep.after {σ α : Type} : TokenStep σ α → σ
  | .ok _ s => s
  | .error _ s => s

open TokenStep

-- Something tokens are taken from one by one.
--
-- Looking does not change what is taken.  The other laws bound what can still be taken; they are why
-- reading a tree ends, whatever the tokens come from.
class TokenSource (σ : Type) where
  look : σ → TokenStep σ (Option Token)
  take : σ → TokenStep σ (Option Token)
  -- Remembers the position, unless one is remembered already.
  begin? : σ → Option σ
  commit : σ → σ
  reset : σ → σ
  -- Leaves a segment of a string and goes on with the text around it.
  resumeText : σ → TokenStep σ Unit
  -- A bound on the tokens that can still be taken,
  weight : σ → Nat
  -- and a bound on those that can be taken after a reset.
  room : σ → Nat
  take_of_look : ∀ {s token s'}, look s = .ok token s' → ∃ s'', take s' = .ok token s''
  weight_le_room : ∀ s, weight s ≤ room s
  weight_look_le : ∀ s, weight (after (look s)) ≤ weight s
  room_look_le : ∀ s, room (after (look s)) ≤ room s
  weight_take_le : ∀ s, weight (after (take s)) ≤ weight s
  weight_take_lt : ∀ {s token s'}, take s = .ok (some token) s' → weight s' < weight s
  room_take_le : ∀ s, room (after (take s)) ≤ room s
  room_begin_le : ∀ {s s'}, begin? s = some s' → room s' ≤ weight s
  weight_commit_le : ∀ s, weight (commit s) ≤ weight s
  weight_reset_le : ∀ s, weight (reset s) ≤ room s
  weight_resumeText_le : ∀ s, weight (after (resumeText s)) ≤ weight s

end Frontend
