import Frontend.CommandLine
import Frontend.Proofs.ListingAgreement

-- A source is read as a tree along just the tokens that it is listed with, so that no later stage accepts
-- what the token stage refuses.

namespace Frontend

open Grammar TokenSource

section End

variable {α : Type} {eof : Span} {s s' : Feed}

theorem expectEnd_ended {kinds : List TokenKind} (ended : expectEnd kinds eof s = .ok () s') :
    s'.ahead = [] := by
  obtain ⟨_ | ⟨e | t, rest⟩, journal⟩ := s <;> cases ended
  rfl

-- Whoever expects the end of the input has read all of it.
theorem bind_expectEnd_ended {β : Type} {r : Rule Feed α} {kinds : List TokenKind} {f : α → β} {b : β}
    (ran : (do let a ← r; expectEnd kinds; return f a : Rule Feed β) eof s = .ok b s') :
    s'.ahead = [] := by
  simp only [Bind.bind, ReaderT.bind, EStateM.bind, Pure.pure, ReaderT.pure, EStateM.pure] at ran
  split at ran
  · split at ran
    · next ended => cases ran; exact expectEnd_ended ended
    · cases ran
  · cases ran

theorem program_ended {node : Surface.Node} (ran : program eof s = .ok node s') : s'.ahead = [] :=
  bind_expectEnd_ended ran

theorem wholeExpr_ended {e : Surface.Expr} (ran : wholeExpr eof s = .ok e s') : s'.ahead = [] :=
  bind_expectEnd_ended (f := id) ran

end End

def Brings (source : String) (whole : List Answer) : Prop :=
  match tokensOf source with
  | .ok tokens => whole = tokens.map .ok
  | .error e => ∃ tokens : List Token, whole = tokens.map .ok ++ [.error e]

-- At the start of a source, all that it is listed with is still to come.
theorem even_start {source : String} {whole : List Answer}
    (listed : Listed [] (TokenStream.ofSource source) whole) :
    Even whole 0 (Observed.ofSource source) ⟨whole, none⟩ :=
  ⟨⟨⟨rfl, nofun⟩, TokenStream.stands_start source, listed⟩, rfl, rfl⟩

theorem listing (source : String) :
    ∃ whole, Brings source whole ∧ Even whole 0 (Observed.ofSource source) ⟨whole, none⟩ := by
  have listed := listed_toList [] (TokenStream.ofSource source)
  unfold Brings tokensOf
  revert listed
  rcases toList [] (TokenStream.ofSource source) with ⟨tokens, s⟩ | ⟨e, s⟩
  · exact fun listed => ⟨_, rfl, even_start listed⟩
  · intro found
    obtain ⟨tokens, listed⟩ := found
    exact ⟨_, ⟨tokens, rfl⟩, even_start listed⟩

theorem Brings.error {source : String} {whole : List Answer} {e : Located LexicalError}
    (brings : Brings source whole) (listed : .error e ∈ whole) : tokensOf source = .error e := by
  unfold Brings at brings
  split at brings
  · rw [brings] at listed
    obtain ⟨_, _, same⟩ := List.mem_map.1 listed
    cases same
  · next e' same =>
    obtain ⟨tokens, rfl⟩ := brings
    rcases List.mem_append.1 listed with among | last
    · obtain ⟨_, _, same⟩ := List.mem_map.1 among
      cases same
    · cases List.mem_singleton.1 last
      exact same

theorem Brings.tokens {source : String} {tokens : List Token}
    (brings : Brings source (tokens.map .ok)) : tokensOf source = .ok tokens := by
  unfold Brings at brings
  split at brings
  · next others same => rw [same, (List.map_inj_right fun _ _ => Except.ok.inj).1 brings]
  · next e same =>
    obtain ⟨others, same⟩ := brings
    have listed : (.error e : Answer) ∈ tokens.map .ok := by rw [same]; simp
    obtain ⟨_, _, same⟩ := List.mem_map.1 listed
    cases same

-- How a run on a source goes with the listing of the source: it takes all that is listed, or fails, and
-- with a lexical error only where the listing does so.
def GoesWith {α : Type} (source : String) : EStateM.Result ReadError Observed α → Prop
  | .ok _ o => tokensOf source = .ok o.taken ∧ ∀ s ∈ o.left, s.Ready
  | .error f o => (∀ e, f = .lexical e → tokensOf source = .error e) ∧ ∀ s ∈ o.left, s.Ready

theorem goesWith_of_agrees {α : Type} {eof : Span} {rule : Rule Observed α} {rule' : Rule Feed α}
    (agrees : ∀ whole, Carries (evenFaults eof whole) (Even whole 0) (same (Even whole 0)) rule rule')
    (ended : ∀ {a s s'}, rule' eof s = .ok a s' → s'.ahead = []) (source : String) :
    GoesWith source (rule eof (Observed.ofSource source)) := by
  obtain ⟨whole, brings, start⟩ := listing source
  have agree : Agree (evenFaults eof whole) _ (rule eof _) (rule' eof _) := agrees whole _ _ start
  rcases agree.split with ⟨a, b, o, f, ran, ran', -, even⟩ |
      ⟨e, e', o, f, ran, -, -, listed, clean, -⟩ | ⟨e, o, -, bad⟩
  · rw [ran]
    have all := even.whole
    rw [ended ran', List.append_nil] at all
    exact ⟨(all ▸ brings).tokens, even.clean⟩
  · rw [ran]
    exact ⟨fun error lexical => brings.error (listed error lexical), clean⟩
  · exact bad.elim

theorem program_goesWith (source : String) (eof : Span) :
    GoesWith source (program eof (Observed.ofSource source)) :=
  goesWith_of_agrees (fun _ => even_ground.program) program_ended source

theorem wholeExpr_goesWith (source : String) (eof : Span) :
    GoesWith source (wholeExpr eof (Observed.ofSource source)) :=
  goesWith_of_agrees (fun _ => even_weave.wholeExpr) wholeExpr_ended source

theorem program_observed (source : String) (eof : Span) :
    seen Observed.stream (program eof (Observed.ofSource source)) = program eof (TokenStream.ofSource source) :=
  Observed.view_stream.program_seen Observed.resumeText_stream _

theorem wholeExpr_observed (source : String) (eof : Span) :
    seen Observed.stream (wholeExpr eof (Observed.ofSource source)) =
      wholeExpr eof (TokenStream.ofSource source) :=
  Observed.view_stream.wholeExpr_seen Observed.resumeText_stream _

section Outcomes

variable {α : Type} {rule : Rule Observed α} {rule' : Rule TokenStream α} {source : String}
  (shown : seen Observed.stream (rule (.empty source.utf8ByteSize) (Observed.ofSource source)) =
    rule' (.empty source.utf8ByteSize) (TokenStream.ofSource source))
  (goes : GoesWith source (rule (.empty source.utf8ByteSize) (Observed.ofSource source)))

include shown goes

-- What is read is read along the tokens of the listing.
theorem runOn_taken {a : α}
    (read : runOn rule' (TokenStream.ofSource source) source.utf8ByteSize = .ok a) :
    ∃ o, rule (.empty source.utf8ByteSize) (Observed.ofSource source) = .ok a o ∧
      rule' (.empty source.utf8ByteSize) (TokenStream.ofSource source) = .ok a o.stream ∧
        tokensOf source = .ok o.taken := by
  unfold runOn at read
  rw [← shown] at read ⊢
  rcases ran : rule (.empty source.utf8ByteSize) (Observed.ofSource source) with ⟨b, o⟩ | ⟨f, o⟩ <;>
    rw [ran] at read goes <;> cases read
  exact ⟨o, rfl, rfl, goes.1⟩

theorem runOn_lexical {e : Located LexicalError}
    (read : runOn rule' (TokenStream.ofSource source) source.utf8ByteSize = .error (.lexical e)) :
    tokensOf source = .error e := by
  unfold runOn at read
  rw [← shown] at read
  rcases ran : rule (.empty source.utf8ByteSize) (Observed.ofSource source) with ⟨b, o⟩ | ⟨f, o⟩ <;>
    rw [ran] at read goes
  · cases read
  · cases f <;> cases read
    exact goes.1 _ rfl

end Outcomes

theorem readProgram_tokens {source : String} {node : Surface.Node}
    (read : readProgram source = .ok node) : ∃ tokens, tokensOf source = .ok tokens := by
  obtain ⟨o, -, -, listed⟩ := runOn_taken (program_observed source _) (program_goesWith source _) read
  exact ⟨_, listed⟩

-- What a later stage accepts was read as a program.
theorem emit_tokens {stage : CommandLine.Stage} {source output : String}
    (accepted : CommandLine.emit stage source = .ok output) :
    ∃ listed, CommandLine.emit .tokens source = .ok listed := by
  have accept {tokens : List Token} (listed : tokensOf source = .ok tokens) :
      ∃ listed, CommandLine.emit .tokens source = .ok listed :=
    ⟨_, by rw [CommandLine.emit, compileTokens, listed]; rfl⟩
  cases stage with
  | tokens => exact ⟨_, accepted⟩
  | written =>
    cases read : readProgram source with
    | error e => rw [CommandLine.emit, read] at accepted; cases accepted
    | ok node =>
      obtain ⟨tokens, listed⟩ := readProgram_tokens read
      exact accept listed
  | meaning =>
    cases compiled : compile source with
    | error e => rw [CommandLine.emit, compiled] at accepted; cases accepted
    | ok c =>
      obtain ⟨read, -⟩ := compile_eq_ok.1 compiled
      obtain ⟨tokens, listed⟩ := readProgram_tokens read
      exact accept listed

theorem fileOutcome_tokens {stage : CommandLine.Stage} {content : Option ByteArray}
    (accepted : (CommandLine.fileOutcome stage content).code = 0) :
    (CommandLine.fileOutcome .tokens content).code = 0 := by
  unfold CommandLine.fileOutcome at accepted ⊢
  split at accepted
  · cases accepted
  · split at accepted
    · next emitted =>
      obtain ⟨listed, same⟩ := emit_tokens emitted
      rw [same]
    · cases accepted

-- Reading a tree and listing tokens read the same tokens.
--
-- What is read as a program, or as an expression, is read along all the tokens of the listing: those the
-- run took and did not put back.  A lexical error of the reading is the one of the listing, and where the
-- listing fails, so does the reading.  Hence the token stage accepts every file that a later stage accepts.
theorem reading_follows_listing (source : String) :
    (∀ node, readProgram source = .ok node → ∃ o,
      program (.empty source.utf8ByteSize) (Observed.ofSource source) = .ok node o ∧
      program (.empty source.utf8ByteSize) (TokenStream.ofSource source) = .ok node o.stream ∧
      tokensOf source = .ok o.taken) ∧
    (∀ e, readExpr source = .ok e → ∃ o,
      wholeExpr (.empty source.utf8ByteSize) (Observed.ofSource source) = .ok e o ∧
      wholeExpr (.empty source.utf8ByteSize) (TokenStream.ofSource source) = .ok e o.stream ∧
      tokensOf source = .ok o.taken) ∧
    (∀ e, readProgram source = .error (.lexical e) ∨ readExpr source = .error (.lexical e) →
      tokensOf source = .error e) ∧
    (∀ e, tokensOf source = .error e →
      (∃ e', readProgram source = .error e') ∧ ∃ e', readExpr source = .error e') ∧
    ∀ stage content, (CommandLine.fileOutcome stage content).code = 0 →
      (CommandLine.fileOutcome .tokens content).code = 0 := by
  have programs := program_observed source (.empty source.utf8ByteSize)
  have exprs := wholeExpr_observed source (.empty source.utf8ByteSize)
  refine ⟨fun node => runOn_taken programs (program_goesWith source _),
    fun e => runOn_taken exprs (wholeExpr_goesWith source _), ?_, ?_, fun _ _ => fileOutcome_tokens⟩
  · rintro e (failed | failed)
    · exact runOn_lexical programs (program_goesWith source _) failed
    · exact runOn_lexical exprs (wholeExpr_goesWith source _) failed
  · intro e failed
    constructor
    · cases read : readProgram source with
      | error e' => exact ⟨e', rfl⟩
      | ok node =>
        obtain ⟨o, -, -, listed⟩ := runOn_taken programs (program_goesWith source _) read
        rw [failed] at listed
        cases listed
    · cases read : readExpr source with
      | error e' => exact ⟨e', rfl⟩
      | ok tree =>
        obtain ⟨o, -, -, listed⟩ := runOn_taken exprs (wholeExpr_goesWith source _) read
        rw [failed] at listed
        cases listed

end Frontend
