import Frontend.Proofs.AlikeTokens
import Frontend.Proofs.Lines
import Frontend.Proofs.NodeLocality
import Frontend.Proofs.PhraseKinds

-- A program behind a program.  A source that is read as a program leaves no string open, and ends in a
-- declaration that does not look at what stands behind it.  So the declarations of another source may follow,
-- and if that source has an error, it is the error of both together.

namespace Frontend

open Grammar Surface Scanner Text

variable {ts us rest : List Token} {t : Token}

namespace Grammar

theorem noText_of_phrase {kind : TokenKind} (within : kind ∈ phraseKinds) : kind ≠ .stringText := by
  rintro rfl
  exact absurd within (by decide)

theorem Walks.passes (phrased : Phrased us) (walks : Walks True 0 ts) : Walks True 0 (us ++ ts) := by
  induction us with
  | nil => exact walks
  | cons t us ih =>
    obtain ⟨first, others⟩ := List.forall_mem_cons.1 phrased
    exact .outside trivial (noText_of_phrase first) (ih others)

theorem Walks.symbol {kind : TokenKind} (same : t.kind = kind) (walks : Walks True 0 ts)
    (noText : kind ≠ .stringText := by decide) : Walks True 0 (t :: ts) :=
  .outside trivial (same ▸ noText) walks

-- Declarations close all the strings that they open.
theorem Declares.walks {endings : Endings} {phrase : NodePhrase} (declares : Declares endings phrase ts rest) :
    Walks True 0 rest → Walks True 0 ts := by
  intro walks
  induction declares with
  | none | unended _ => exact walks
  | more _ _ first others => exact first (others walks)
  | enumeration enum named opens spells closes =>
    exact .symbol enum (.symbol named (.symbol opens (.passes spells.phrased (.symbol closes walks))))
  | bodiless introduces named generic constructs ends =>
    rw [List.append_assoc]
    exact .symbol introduces (.symbol named
      (.passes generic.phrased (.passes constructs.phrased (.symbol ends walks))))
  | classDecl introduces named generic constructs opens _ closes body =>
    rw [List.append_assoc]
    exact .symbol introduces (.symbol named
      (.passes generic.phrased (.passes constructs.phrased (.symbol opens (body (.symbol closes walks))))))
  | binding introduces named annotates _ ending =>
    exact .outside trivial (noText_of_phrase introduces.phrased) (.symbol named (.passes annotates.phrased (ending walks)))
  | ret returns derives ends => exact .symbol returns (derives.walks (.symbol ends walks))
  | value assigns derives ends => exact .symbol assigns (derives.walks (.symbol ends walks))
  | computed gets assigns derives ends =>
    exact .symbol gets (.symbol assigns (derives.walks (.symbol ends walks)))
  | getter gets opens _ closes body => exact .symbol gets (.symbol opens (body (.symbol closes walks)))
  | typed ends => exact .symbol ends walks

def closingKinds : List TokenKind := [.semicolon, .rightBrace]

-- The last one of the tokens in front of `rest` closes something.
def Closes (ts rest : List Token) : Prop := ∃ us t, ts = us ++ t :: rest ∧ t.kind ∈ closingKinds

theorem Closes.front (closes : Closes ts rest) (us : List Token) : Closes (us ++ ts) rest := by
  obtain ⟨vs, t, rfl, closing⟩ := closes
  exact ⟨us ++ vs, t, (List.append_assoc ..).symm, closing⟩

theorem Closes.last {kind : TokenKind} (same : t.kind = kind) (front : List Token)
    (closing : kind ∈ closingKinds := by decide) : Closes (front ++ t :: rest) rest :=
  ⟨front, t, rfl, same ▸ closing⟩

theorem Closes.value {e : Expr} (derives : Derives (.infixed 0 e) ts (t :: rest)) (ends : t.kind = .semicolon)
    (front : List Token) : Closes (front ++ ts) rest := by
  obtain ⟨us, rfl, -⟩ := derives.retract [] rfl
  exact (Closes.last ends us).front front

def Closed : NodePhrase → List Token → List Token → Prop
  | .nodes _ _, ts, rest => ts = rest ∨ Closes ts rest
  | _, ts, rest => Closes ts rest

theorem Closed.body {place : Place} {nodes : List Node} (closed : Closed (.nodes place nodes) ts (t :: rest))
    (closes : t.kind = .rightBrace) (front : List Token) : Closes (front ++ ts) rest := by
  rcases closed with rfl | ⟨us, u, rfl, -⟩
  · exact .last closes front
  · have last : Closes (us ++ [u] ++ t :: rest) rest := .last closes _
    rw [List.append_assoc] at last
    exact last.front front

-- Declarations end in a semicolon or in a brace.
theorem Declares.closed {phrase : NodePhrase} (declares : Declares .required phrase ts rest) :
    Closed phrase ts rest := by
  induction declares with
  | none => exact .inl rfl
  | more _ _ first others =>
    rcases others with rfl | others
    · exact .inr first
    · obtain ⟨us, t, rfl, -⟩ := first
      have later := others.front (us ++ [t])
      rw [List.append_assoc] at later
      exact .inr later
  | enumeration _ _ _ _ closes => exact .last closes _
  | bodiless _ _ _ _ ends => exact .last ends _
  | @classDecl keyword id opening _ _ _ _ ts us vs _ _ _ _ _ _ _ closes body =>
    have whole := body.body closes (keyword :: id :: ts ++ us ++ [opening])
    rw [List.append_assoc _ [opening]] at whole
    exact whole
  | binding _ _ _ _ ending => exact Closes.front ending _
  | @ret keyword _ _ _ _ _ derives ends => exact .value derives ends [keyword]
  | @value _ _ assign _ _ _ _ _ derives ends => exact .value derives ends [assign]
  | @computed _ _ keyword assign _ _ _ _ _ _ derives ends => exact .value derives ends [keyword, assign]
  | @getter _ _ keyword opening _ _ _ _ _ _ _ closes body => exact body.body closes [keyword, opening]
  | typed ends => exact .last ends []
  | unended optional => cases optional

theorem Declares.closes {place : Place} {nodes : List Node} (declares : Declares .required (.nodes place nodes) ts []) :
    ∀ t ∈ ts.getLast?, ¬ t.Abrupt := by
  intro t last abrupt
  rcases declares.closed with rfl | ⟨us, u, rfl, closing⟩
  · cases last
  · rw [List.getLast?_concat] at last
    cases last
    rw [abrupt.1] at closing
    exact absurd closing (by decide)

def behindNodes (nodes : List Node) : Node → Node
  | .root others => .root (nodes ++ others)
  | node => node

theorem program_before {nodes : List Node} (declares : Declares .required (.nodes .scope nodes) ts [])
    (eof : Span) (behind : List Answer) :
    program eof (feedBefore ts behind) = (behindNodes nodes <$> program) eof ⟨behind, none⟩ := by
  have start : feedBefore [] behind = ⟨behind, none⟩ := rfl
  simp only [program, Bind.bind, ReaderT.bind, EStateM.bind, Functor.map, EStateM.map,
    declares.read_all, start]
  cases declarations .scope eof (σ := Feed) ⟨behind, none⟩ with
  | error e s => rfl
  | ok others s =>
    dsimp only
    cases expectEnd [.enumKeyword, .classKeyword, .varKeyword, .valKeyword] eof s <;> rfl

end Grammar

def ReadError.shift (k : Nat) : ReadError → ReadError
  | .lexical e => .lexical (e.shift k)
  | .grammatical e => .grammatical (e.shift k)

def Moved (k : Nat) (a b : Span) : Prop := b = a.shift k

def MovedFault (k : Nat) (e f : Located LexicalError) : Prop := f = e.shift k

variable {k length : Nat} {answers : List Answer}

theorem moved_answers (k : Nat) (answers : List Answer) :
    List.Forall₂ (AlikeAnswers (Moved k) (MovedFault k)) answers (answers.map (shiftOutcome k)) := by
  rw [List.forall₂_map_right_iff, List.forall₂_same]
  intro answer _
  cases answer with
  | ok t => exact .token ⟨rfl, rfl, rfl, rfl⟩
  | error e => exact .fault rfl

theorem FailsAlike.moved {e f : ReadError}
    (alike : FailsAlike (Moved k) (MovedFault k) (.empty length) (.empty (k + length)) e f) : f = e.shift k := by
  cases alike with
  | placed near => cases near; rfl
  | lexical met => cases met; rfl
  | ended => rfl

-- What is read off moved answers is the same, and errors are moved with them.
theorem program_moved (k length : Nat) (answers : List Answer) :
    runOn program (σ := Feed) ⟨answers.map (shiftOutcome k), none⟩ (k + length) =
      (runOn program (σ := Feed) ⟨answers, none⟩ length).mapError (ReadError.shift k) := by
  rcases beside_ground.program.runs (.free (moved_answers k answers)) rfl rfl with
      ⟨a, b, s, t, ran, ran', rfl, -⟩ | ⟨e, f, s, t, ran, ran', bad, -⟩ | ⟨_, _, -, bad⟩
  · rw [ran, ran']
    rfl
  · rw [ran, ran', bad.moved]
    rfl
  · exact bad.elim

theorem readProgram_lists {source : String} (lists : Lists (ofSource source) answers) :
    readProgram source = runOn program (σ := Feed) ⟨answers, none⟩ source.utf8ByteSize :=
  runOn_even (program_observed source) (fun _ _ => even_ground.program) (even_start lists.listed) _

theorem runOn_map {σ α β : Type} (rule : Rule σ α) (f : α → β) (s : σ) (length : Nat) :
    runOn (f <$> rule) s length = (runOn rule s length).map f := by
  simp only [runOn, Functor.map, EStateM.map]
  cases rule (.empty length) s <;> rfl

theorem readProgram_joined {a : String} {xs : List Node} (read : readProgram a = .ok (.root xs)) (b : String) :
    readProgram (a ++ "\n" ++ b) =
      ((readProgram b).mapError (ReadError.shift (a.utf8ByteSize + 1))).map (behindNodes xs) := by
  obtain ⟨ts, _, listed, same, declares⟩ := readProgram_declares read
  cases same
  obtain ⟨answers, lists⟩ := exists_lists b
  let later := answers.map (shiftOutcome (a.utf8ByteSize + 1))
  have size : (a ++ "\n" ++ b).utf8ByteSize = a.utf8ByteSize + 1 + b.utf8ByteSize := by
    rw [String.utf8ByteSize_append, String.utf8ByteSize_append]
    rfl
  have before : runOn program (feedBefore ts later) = runOn (behindNodes xs <$> program) (σ := Feed) ⟨later, none⟩ := by
    funext length
    rw [runOn, program_before declares _ later, runOn]
  calc readProgram (a ++ "\n" ++ b)
      = runOn program (feedBefore ts later) (a.utf8ByteSize + 1 + b.utf8ByteSize) := by
        have blank : isBlank '\n' = true := rfl
        have whole : (a ++ "\n" ++ b).toList = a.toList ++ '\n' :: b.toList := by simp
        rw [readProgram_lists (lists_joined blank whole listed (declares.walks .done) declares.closes lists), size]
        rfl
    _ = (runOn program (σ := Feed) ⟨later, none⟩ (a.utf8ByteSize + 1 + b.utf8ByteSize)).map (behindNodes xs) := by
        rw [before, runOn_map]
    _ = ((readProgram b).mapError (ReadError.shift (a.utf8ByteSize + 1))).map (behindNodes xs) := by
        rw [program_moved, readProgram_lists lists]

-- Behind a program and a line break, another program is read as it is on its own, and so is its error.
theorem programs_concatenate {a b : String} {xs : List Node} (first : readProgram a = .ok (.root xs)) :
    (∀ ys, readProgram b = .ok (.root ys) → readProgram (a ++ "\n" ++ b) = .ok (.root (xs ++ ys))) ∧
      ∀ e, readProgram b = .error e → readProgram (a ++ "\n" ++ b) = .error (e.shift (a.utf8ByteSize + 1)) := by
  constructor
  · intro ys second
    rw [readProgram_joined first, second]
    rfl
  · intro e failed
    rw [readProgram_joined first, failed]
    rfl

-- The name is missing behind the keyword, at the end of the input.
theorem unnamed_class_behind_class :
    ∃ xs, readProgram "class A;" = .ok (.root xs) ∧
      readProgram "class" = .error (.grammatical ⟨Span.empty 5, .unexpectedEnd⟩) ∧
      readProgram "class A;\nclass" = .error (.grammatical ⟨Span.empty 14, .unexpectedEnd⟩) := by
  have accepted : (readProgram "class A;").isOk = true := by decide +kernel
  have refused : (match readProgram "class" with | .ok _ => none | .error e => some e) =
      some (ReadError.grammatical ⟨Span.empty 5, .unexpectedEnd⟩) := by decide +kernel
  have failed : readProgram "class" = .error (.grammatical ⟨Span.empty 5, .unexpectedEnd⟩) := by
    split at refused <;> cases refused
    assumption
  cases read : readProgram "class A;" with
  | error e => rw [read] at accepted; cases accepted
  | ok node =>
    obtain ⟨_, xs, -, rfl, -⟩ := readProgram_declares read
    exact ⟨xs, rfl, failed, (programs_concatenate read).2 _ failed⟩

end Frontend
