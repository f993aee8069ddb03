import Frontend.Proofs.Answers

-- The length of the input is where its end is reported, and nothing else.  The two runs start from one stream
-- and are told different ends of the input.  They are kept side by side through every rule: inside an attempt
-- both may run into the end, each at its own place, and both give it up, because the place is not what decides
-- that.

namespace Frontend

namespace Grammar

-- The outcomes are the same, but for the end of the input, which one has at `m` and the other at `n`.
inductive EndsAt {α : Type} (m n : Nat) : Except ReadError α → Except ReadError α → Prop where
  | ok (a : α) : EndsAt m n (.ok a) (.ok a)
  | failed (e : ReadError) : (∀ located, e = .grammatical located → located.value ≠ .unexpectedEnd) →
      EndsAt m n (.error e) (.error e)
  | ended : EndsAt m n (.error (.grammatical ⟨Span.empty m, .unexpectedEnd⟩))
      (.error (.grammatical ⟨Span.empty n, .unexpectedEnd⟩))

variable {σ α : Type}

-- Two runs that keep the states equal end alike, and where one reports the end of its input, the other
-- one does too.
theorem runOn_endsAt {rule : Rule σ α} {m n : Nat} {s : σ}
    (runs : Carries (viewFaults (.empty m) (.empty n) id Any) (viewed id Any) (same (viewed id Any)) rule rule) :
    EndsAt m n (runOn rule s m) (runOn rule s n) := by
  rcases runs.runs (t := s) ⟨rfl, trivial⟩ rfl rfl with ⟨a, _, _, _, ran, ran', rfl, -⟩ |
      ⟨e, _, _, _, ran, ran', ends, -⟩ | ⟨_, _, -, never⟩
  · rw [ran, ran']
    exact .ok a
  · rw [ran, ran']
    cases ends with
    | same inside => exact .failed e inside
    | ended => exact .ended
  · exact never.elim

end Grammar

-- Where the input is said to end decides nothing: not whether the stream is a program, nor which one,
-- nor why it is none.  It is only where the end of the input is reported.
theorem length_locates_end (s : TokenStream) (m n : Nat) :
    Grammar.EndsAt m n (readProgramFrom s m) (readProgramFrom s n) :=
  Grammar.runOn_endsAt Grammar.ground_id.program

end Frontend
