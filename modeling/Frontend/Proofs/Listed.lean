import Frontend.Proofs.Observed
import Frontend.Proofs.Standing

-- What listing the tokens of a source brings up, answer by answer.

namespace Frontend

open TokenStep

namespace TokenSource

variable {σ : Type} [TokenSource σ]

-- The answers that come up where the tokens are listed: all tokens, or the tokens up to an error and
-- the error.
inductive Listed : List Nat → σ → List Answer → Prop where
  | ended {segments : List Nat} {s s' : σ} : take s = .ok none s' → Listed segments s []
  | fault {segments : List Nat} {s s' : σ} {e : Located LexicalError} : take s = .error e s' →
      Listed segments s [.error e]
  -- The token is there, but what follows it is not.
  | lost {segments : List Nat} {s s' s'' : σ} {t : Token} {e : Located LexicalError} :
      take s = .ok (some t) s' → track segments t s' = .error e s'' →
      Listed segments s [.ok t, .error e]
  | token {segments inner : List Nat} {s s' s'' : σ} {t : Token} {rest : List Answer} :
      take s = .ok (some t) s' → track segments t s' = .ok inner s'' → Listed inner s'' rest →
      Listed segments s (.ok t :: rest)

theorem toList_eq (segments : List Nat) (s : σ) : toList segments s =
    match take s with
    | .error e s₁ => .error e s₁
    | .ok none s₁ => .ok [] s₁
    | .ok (some token) s₁ =>
      match track segments token s₁ with
      | .error e s₂ => .error e s₂
      | .ok inner s₂ =>
        match toList inner s₂ with
        | .error e s₃ => .error e s₃
        | .ok tokens s₃ => .ok (token :: tokens) s₃ := by
  rw [toList]
  split
  · next taken => rw [taken]
  · next taken => rw [taken]
  · next taken =>
    rw [taken]
    dsimp only
    split
    · next tracked => rw [tracked]
    · next inner s₂ tracked =>
      cases later : toList inner s₂ <;> simp only [tracked, later]

theorem listed_toList (segments : List Nat) (s : σ) :
    match toList segments s with
    | .ok tokens _ => Listed segments s (tokens.map .ok)
    | .error e _ => ∃ tokens : List Token, Listed segments s (tokens.map .ok ++ [.error e]) := by
  fun_induction toList segments s with
  | case1 segments s e s₁ taken => exact ⟨[], .fault taken⟩
  | case2 segments s s₁ taken => exact .ended taken
  | case3 segments s token s₁ taken e s₂ tracked => exact ⟨[token], .lost taken tracked⟩
  | case4 segments s token s₁ taken inner s₂ tracked e s₃ failed ih =>
    rw [failed] at ih
    obtain ⟨tokens, listed⟩ := ih
    exact ⟨token :: tokens, .token taken tracked listed⟩
  | case5 segments s token s₁ taken inner s₂ tracked tokens s₃ done ih =>
    rw [done] at ih
    exact .token taken tracked ih

-- What comes up behind a token whose braces and texts are counted in.
def Goes : TokenStep σ (List Nat) → List Answer → Prop
  | .ok inner s, rest => Listed inner s rest
  | .error e _, rest => rest = [.error e]

variable {segments : List Nat} {s s' : σ} {answers : List Answer}

theorem Listed.next {t : Token} (listed : Listed segments s answers)
    (taken : take s = .ok (some t) s') :
    ∃ rest, answers = .ok t :: rest ∧ Goes (track segments t s') rest := by
  cases listed with
  | ended took | fault took => rw [taken] at took; cases took
  | lost took tracked =>
    rw [taken] at took
    cases took
    exact ⟨_, rfl, by rw [tracked]; rfl⟩
  | token took tracked later =>
    rw [taken] at took
    cases took
    exact ⟨_, rfl, by rw [tracked]; exact later⟩

theorem Listed.none (listed : Listed segments s answers) (taken : take s = .ok none s') :
    answers = [] := by
  cases listed with
  | ended => rfl
  | fault took | lost took _ | token took _ _ => rw [taken] at took; cases took

theorem Listed.error {e : Located LexicalError} (listed : Listed segments s answers)
    (taken : take s = .error e s') : answers = [.error e] := by
  cases listed with
  | fault took => rw [taken] at took; cases took; rfl
  | ended took | lost took _ | token took _ _ => rw [taken] at took; cases took

theorem Listed.congr (listed : Listed segments s answers) (same : take s' = take s) :
    Listed segments s' answers := by
  cases listed with
  | ended took => exact .ended (same.trans took)
  | fault took => exact .fault (same.trans took)
  | lost took tracked => exact .lost (same.trans took) tracked
  | token took tracked later => exact .token (same.trans took) tracked later

end TokenSource

namespace Grammar.View

open TokenSource

variable {S T : Type} [TokenSource S] [TokenSource T] {f : S → T}

theorem track_seen (view : View f) (resume : ∀ s, seen f (resumeText s) = resumeText (f s))
    (segments : List Nat) (t : Token) (s : S) :
    seen f (track segments t s) = track segments t (f s) := by
  unfold track
  split
  · unfold afterText
    rw [← view.look]
    cases TokenSource.look s with
    | error e s => rfl
    | ok a s =>
      by_cases ends : a.map Token.kind = some .stringEnd <;> simp only [seen, ends, if_true, if_false]
  · rfl
  · rw [← resume]
    cases resumeText s <;> rfl
  · rfl
  · rfl

theorem toList_seen (view : View f) (resume : ∀ s, seen f (resumeText s) = resumeText (f s))
    (segments : List Nat) (s : S) : seen f (toList segments s) = toList segments (f s) := by
  fun_induction toList segments s with
  | case1 segments s e s₁ taken => rw [toList_eq, ← view.take, taken]; rfl
  | case2 segments s s₁ taken => rw [toList_eq, ← view.take, taken]; rfl
  | case3 segments s token s₁ taken e s₂ tracked =>
    rw [toList_eq, ← view.take, taken]
    simp only [seen]
    rw [← view.track_seen resume, tracked]
    rfl
  | case4 segments s token s₁ taken inner s₂ tracked e s₃ failed ih =>
    rw [toList_eq, ← view.take, taken]
    simp only [seen]
    rw [← view.track_seen resume, tracked]
    simp only [seen]
    rw [← ih, failed]
    rfl
  | case5 segments s token s₁ taken inner s₂ tracked tokens s₃ done ih =>
    rw [toList_eq, ← view.take, taken]
    simp only [seen]
    rw [← view.track_seen resume, tracked]
    simp only [seen]
    rw [← ih, done]
    rfl

end Grammar.View

end Frontend
