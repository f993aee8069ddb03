import Frontend.Proofs.Answers
import Frontend.Proofs.Attempts

-- Type arguments on a stream of tokens: a closed list of types is taken where one stands, and an attempt
-- that finds none leaves no trace.

namespace Frontend

open Grammar TokenSource TokenStep Surface

namespace Grammar

variable {s : TokenStream}

-- Where no position is remembered, all depends on the answers to come.
theorem generics_feed (eof : Span) (free : s.journal = none) :
    seen TokenStream.feed (genericsAfterName typeExpr eof s) =
      genericsAfterName typeExpr (σ := Feed) eof ⟨s.answers, none⟩ := by
  rw [TokenStream.view_feed.generics_seen, TokenStream.feed, free]

theorem of_seen_ok {ε σ τ α : Type} {f : σ → τ} {x : EStateM.Result ε σ α} {a : α} {t : τ}
    (shown : seen f x = .ok a t) : ∃ s, x = .ok a s ∧ f s = t := by
  cases x <;> cases shown
  exact ⟨_, rfl, rfl⟩

theorem of_seen_error {ε σ τ α : Type} {f : σ → τ} {x : EStateM.Result ε σ α} {e : ε} {t : τ}
    (shown : seen f x = .error e t) : ∃ s, x = .error e s ∧ f s = t := by
  cases x <;> cases shown
  exact ⟨_, rfl, rfl⟩

theorem typeArguments_outcome (eof : Span) (free : s.journal = none) :
    (∃ args s', Begins args s'.answers s.answers ∧
      genericsAfterName typeExpr eof s = .ok (some args) s' ∧ s'.journal = none) ∨
    (∃ e s', Breaks e s'.answers s.answers ∧
      genericsAfterName typeExpr eof s = .error (.lexical e) s' ∧ s'.journal = none) ∨
    ∃ s', genericsAfterName typeExpr eof s = .ok none s' ∧ s'.feed = s.feed := by
  have shown := generics_feed eof free
  rcases generics_outcome eof s.answers with ⟨args, rest, begins, ran⟩ | ⟨e, rest, breaks, ran⟩ | ran
  · obtain ⟨s', ran', same⟩ := of_seen_ok (shown.trans ran)
    obtain rfl := congrArg Feed.ahead same
    exact .inl ⟨args, s', begins, ran', congrArg Feed.journal same⟩
  · obtain ⟨s', ran', same⟩ := of_seen_error (shown.trans ran)
    obtain rfl := congrArg Feed.ahead same
    exact .inr (.inl ⟨e, s', breaks, ran', congrArg Feed.journal same⟩)
  · obtain ⟨s', ran', same⟩ := of_seen_ok (shown.trans ran)
    exact .inr (.inr ⟨s', ran', by rw [same, TokenStream.feed, free]⟩)

-- Type arguments behind a name are decided exactly.
--
-- With no position remembered, they are taken just where the answers to come begin with a closed list of
-- types; an error that cuts such a list short is the failure; in every other case nothing is taken, and
-- whatever is asked later is answered as if there had been no attempt.  No position is left remembered.
theorem typeArguments_exact (eof : Span) (s : TokenStream) (free : s.journal = none) :
    (∀ args rest, (∃ s', genericsAfterName typeExpr eof s = .ok (some args) s' ∧ s'.answers = rest) ↔
      Begins args rest s.answers) ∧
    (∀ failure, (∃ s', genericsAfterName typeExpr eof s = .error failure s') ↔
      ∃ e rest, failure = .lexical e ∧ Breaks e rest s.answers) ∧
    ((∀ args rest, ¬ Begins args rest s.answers) → (∀ e rest, ¬ Breaks e rest s.answers) →
      ∃ s', genericsAfterName typeExpr eof s = .ok none s' ∧
        ∀ requests, s'.replies requests = s.replies requests) ∧
    ∀ s', (∃ args, genericsAfterName typeExpr eof s = .ok args s') ∨
      (∃ failure, genericsAfterName typeExpr eof s = .error failure s') → s'.journal = none := by
  have outcome := typeArguments_outcome eof free
  have shown := generics_feed eof free
  refine ⟨fun args rest => ⟨?_, fun begins => ?_⟩, fun failure => ⟨?_, ?_⟩, fun noList noError => ?_, ?_⟩
  · intro found
    obtain ⟨s', ran, rfl⟩ := found
    rw [ran] at outcome
    rcases outcome with ⟨_, _, begins, same, -⟩ | ⟨_, _, -, same, -⟩ | ⟨_, same, -⟩ <;> cases same
    exact begins
  · obtain ⟨s', ran, same⟩ := of_seen_ok (shown.trans (generics_begins begins))
    exact ⟨s', ran, congrArg Feed.ahead same⟩
  · intro found
    obtain ⟨s', ran⟩ := found
    rw [ran] at outcome
    rcases outcome with ⟨_, _, -, same, -⟩ | ⟨e, _, breaks, same, -⟩ | ⟨_, same, -⟩ <;> cases same
    exact ⟨e, _, rfl, breaks⟩
  · intro found
    obtain ⟨e, rest, rfl, breaks⟩ := found
    obtain ⟨s', ran, -⟩ := of_seen_error (shown.trans (generics_breaks breaks))
    exact ⟨s', ran⟩
  · obtain ⟨s', ran, same⟩ := of_seen_ok (shown.trans (generics_neither noList noError))
    refine ⟨s', ran, fun requests => ?_⟩
    rw [← TokenStream.replies_feed, ← TokenStream.replies_feed, same, TokenStream.feed, free]
  · have closed (s' : TokenStream) (same : s'.feed = s.feed) : s'.journal = none :=
      (congrArg Feed.journal same).trans free
    rintro s' (⟨args, ran⟩ | ⟨failure, ran⟩) <;> rw [ran] at outcome <;>
      rcases outcome with ⟨_, _, -, same, done⟩ | ⟨_, _, -, same, done⟩ | ⟨_, same, kept⟩ <;>
      cases same
    · exact done
    · exact closed _ kept
    · exact done

-- In front of a `<`, an identifier and a `>`, these three are taken.
theorem typeArguments_exact_taken : ∃ s', genericsAfterName typeExpr (σ := TokenStream) (.empty 0)
      ⟨Reader.ofSource "", [wanted .less, wanted .identifier, wanted .greater], none⟩ =
        .ok (some [.ident (wanted .identifier).text none]) s' ∧
      s'.answers = (Reader.ofSource "").answers :=
  ((typeArguments_exact _ _ rfl).1 _ _).2 ⟨_, spells_wanted_list, rfl⟩

end Grammar

end Frontend
