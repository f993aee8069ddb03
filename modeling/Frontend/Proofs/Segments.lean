import Frontend.Proofs.SameTokens

-- Segments are left only where they can be: behind their `}`, with nothing read beyond it, so that no
-- source ever brings up an unbalanced interpolation.

namespace Frontend

open Grammar TokenSource

def Clean (o : Observed) : Prop := ∀ s ∈ o.left, s.Ready

variable {segments : List Nat} {o : Observed}

-- A step that leaves segments well, and brings up no unbalanced one.
def Safe {α : Type} (good : α → Observed → Prop) : TokenStep Observed α → Prop
  | .ok a o => good a o ∧ Clean o
  | .error e o => e.value ≠ .unbalancedInterpolation ∧ Clean o

theorem track_stands {t : Token} (clean : Clean o)
    (place : o.stream.At segments.length t.kind ∨
      t.kind ∈ typeKinds ∧ o.stream.Stands segments.length) :
    Safe (fun inner o' => o'.stream.Stands inner.length) (track segments t o) := by
  have stands (noText : t.kind ≠ .stringText) : o.stream.Stands segments.length := by
    rcases place with behind | typed
    · exact behind.stands noText
    · exact typed.2
  have behind (brace : t.kind ∉ typeKinds) : o.stream.At segments.length t.kind :=
    place.resolve_right fun typed => brace typed.1
  unfold track
  split
  · next text =>
    have behind := behind (by rw [text]; decide)
    rw [text] at behind
    have following := behind.afterText
    simp only [afterText, TokenSource.look, Observed.look]
    rcases looked : o.stream.peek 0 with ⟨a, s⟩ | ⟨e, s⟩ <;> rw [looked] at following
    · simp only [seen]
      by_cases ends : a.map Token.kind = some .stringEnd <;>
        simp only [ends, if_true, if_false] at following ⊢ <;> exact ⟨following, clean⟩
    · exact ⟨following, clean⟩
  · next opens => exact ⟨stands (by rw [opens]; decide), clean⟩
  · next outer closes =>
    have behind := behind (by rw [closes]; decide)
    rw [closes] at behind
    obtain ⟨s, left, standing, -⟩ := behind.resume
    simp only [TokenSource.resumeText, Observed.resumeText, left, seen]
    refine ⟨standing, fun s within => ?_⟩
    rcases List.mem_cons.1 within with rfl | within
    · exact behind.ready
    · exact clean s within
  · next closes => exact ⟨stands (by rw [closes]; decide), clean⟩
  · next other _ _ _ => exact ⟨stands (fun text => other text), clean⟩

theorem take_stands (clean : Clean o) (stands : o.stream.Stands segments.length) :
    Safe (fun token o' => ∀ t, token = some t → o'.stream.At segments.length t.kind ∨
      t.kind ∈ typeKinds ∧ o'.stream.Stands segments.length) (take o) := by
  have step := stands.consume
  simp only [TokenSource.take, Observed.take]
  revert step
  rcases o.stream.consume 0 with ⟨_ | t, s⟩ | ⟨e, s⟩
  · exact fun _ => ⟨nofun, clean⟩
  · refine fun place => ⟨?_, clean⟩
    intro _ same
    cases same
    exact place
  · exact fun other => ⟨other, clean⟩

theorem toList_safe (segments : List Nat) (o : Observed) (clean : Clean o)
    (stands : o.stream.Stands segments.length) : Safe (fun _ _ => True) (toList segments o) := by
  fun_induction toList segments o with
  | case1 segments o e o₁ taken =>
    have step := take_stands clean stands
    rw [taken] at step
    exact step
  | case2 segments o o₁ taken =>
    have step := take_stands clean stands
    rw [taken] at step
    exact ⟨trivial, step.2⟩
  | case3 segments o token o₁ taken e o₂ tracked =>
    have step := take_stands clean stands
    rw [taken] at step
    have counted := track_stands step.2 (step.1 _ rfl)
    rw [tracked] at counted
    exact counted
  | case4 segments o token o₁ taken inner o₂ tracked e o₃ failed ih =>
    have step := take_stands clean stands
    rw [taken] at step
    have counted := track_stands step.2 (step.1 _ rfl)
    rw [tracked] at counted
    have later := ih counted.2 counted.1
    rw [failed] at later
    exact later
  | case5 segments o token o₁ taken inner o₂ tracked tokens o₃ done ih =>
    have step := take_stands clean stands
    rw [taken] at step
    have counted := track_stands step.2 (step.1 _ rfl)
    rw [tracked] at counted
    have later := ih counted.2 counted.1
    rw [done] at later
    exact later

def leftover {ε σ α : Type} : EStateM.Result ε σ α → σ
  | .ok _ s => s
  | .error _ s => s

theorem GoesWith.clean {α : Type} {source : String} {x : EStateM.Result ReadError Observed α}
    (goes : GoesWith source x) : Clean (leftover x) := by
  cases x <;> exact goes.2

theorem Safe.clean {α : Type} {good : α → Observed → Prop} {x : TokenStep Observed α}
    (safe : Safe good x) : Clean (leftover x) := by
  cases x <;> exact safe.2

theorem toList_observed (source : String) :
    seen Observed.stream (toList [] (Observed.ofSource source)) =
      toList [] (TokenStream.ofSource source) :=
  Observed.view_stream.toList_seen Observed.resumeText_stream _ _

theorem listing_safe (source : String) :
    Safe (fun _ _ => True) (toList [] (Observed.ofSource source)) :=
  toList_safe _ _ nofun (TokenStream.stands_start source)

theorem tokensOf_balanced {source : String} {e : Located LexicalError}
    (failed : tokensOf source = .error e) : e.value ≠ .unbalancedInterpolation := by
  have safe := listing_safe source
  unfold tokensOf at failed
  rw [← toList_observed] at failed
  revert safe failed
  rcases toList [] (Observed.ofSource source) with ⟨tokens, o⟩ | ⟨e', o⟩
  · exact nofun
  · intro same safe
    cases same
    exact safe.1

-- No interpolation is ever unbalanced.
--
-- Neither listing nor reading nor compiling a source fails for that reason, and wherever a segment is left
-- on the way, in a run that succeeds or fails, nothing is read beyond its `}` and code is innermost.  It
-- does not matter where the run is told that the input ends.
theorem segments_balanced (source : String) (eof : Span) :
    (∀ e, tokensOf source = .error e ∨ readProgram source = .error (.lexical e) ∨
      readExpr source = .error (.lexical e) ∨ compile source = .error (.reading (.lexical e)) →
      e.value ≠ .unbalancedInterpolation) ∧
    (seen Observed.stream (toList [] (Observed.ofSource source)) =
        toList [] (TokenStream.ofSource source) ∧
      ∀ s ∈ (leftover (toList [] (Observed.ofSource source))).left, s.Ready) ∧
    (seen Observed.stream (program eof (Observed.ofSource source)) =
        program eof (TokenStream.ofSource source) ∧
      ∀ s ∈ (leftover (program eof (Observed.ofSource source))).left, s.Ready) ∧
    (seen Observed.stream (wholeExpr eof (Observed.ofSource source)) =
        wholeExpr eof (TokenStream.ofSource source) ∧
      ∀ s ∈ (leftover (wholeExpr eof (Observed.ofSource source))).left, s.Ready) := by
  have programs := program_observed source eof
  have exprs := wholeExpr_observed source eof
  have programBalanced {e : Located LexicalError} (failed : readProgram source = .error (.lexical e)) :
      e.value ≠ .unbalancedInterpolation :=
    tokensOf_balanced (runOn_lexical (program_observed source _) (program_goesWith source _) failed)
  refine ⟨?_, ⟨toList_observed source, (listing_safe source).clean⟩,
    ⟨programs, (program_goesWith source eof).clean⟩, ⟨exprs, (wholeExpr_goesWith source eof).clean⟩⟩
  rintro e (failed | failed | failed | failed)
  · exact tokensOf_balanced failed
  · exact programBalanced failed
  · exact tokensOf_balanced (runOn_lexical (wholeExpr_observed source _) (wholeExpr_goesWith source _) failed)
  · refine programBalanced ?_
    unfold compile at failed
    split at failed
    · next read => cases failed; exact read
    · split at failed <;> cases failed

end Frontend
