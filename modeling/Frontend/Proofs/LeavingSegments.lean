import Frontend.Proofs.Standing
import Frontend.Proofs.Answers

-- Leaving a segment where none can be left.  The attempt fails, and mostly this is all that it does.  Only
-- where the text of a string comes next, with nothing in the buffer or in the queue, the string is left
-- nevertheless, and the next token tells.

namespace Frontend

open Reader TokenStep

inductive Command where
  | request (request : Request)
  -- To leave a segment of a string.
  | resume

namespace TokenStream

def perform (s : TokenStream) : Command → Reply × TokenStream
  | .request request => s.respond request
  | .resume =>
    match s.resumeText with
    | .ok () s => (.done, s)
    | .error e s => (.fault e, s)

def afterAll (s : TokenStream) : List Command → TokenStream
  | [] => s
  | command :: commands => (s.perform command).2.afterAll commands

def repliesTo (s : TokenStream) : List Command → List Reply
  | [] => []
  | command :: commands => (s.perform command).1 :: (s.perform command).2.repliesTo commands

end TokenStream

-- Texts and segments take turns, and the outermost one is a text.
def Reader.Layered (r : Reader) : Prop :=
  ∃ depth, r.modes = modesOf depth ∨ r.modes = .text :: modesOf depth

namespace Reader

variable {r : Reader} {c : Char} {cs : List Char}

theorem readRange_modes (r : Reader) (digits rest : List Char) : (after (r.readRange digits rest)).modes = r.modes := by
  have outcome := r.readRange_outcome digits rest
  generalize r.readRange digits rest = step at outcome ⊢
  cases outcome <;> rfl

theorem readToken_modes (r : Reader) (c : Char) (cs : List Char) :
    (after (r.readToken c cs)).modes = r.modes ∨ (after (r.readToken c cs)).modes = .text :: r.modes := by
  have outcome := r.readToken_outcome c cs
  generalize r.readToken c cs = step at outcome ⊢
  cases outcome with
  | quote => exact .inr rfl
  | range _ _ read => exact .inl (read ▸ readRange_modes r _ _)
  | _ => exact .inl rfl

theorem readText_modes (r : Reader) (outer : List Mode) :
    (after (r.readText outer)).modes = outer ∨ (after (r.readText outer)).modes = .code :: .text :: outer := by
  have outcome := r.readText_outcome outer
  generalize r.readText outer = step at outcome ⊢
  cases outcome with
  | unclosed | closed => exact .inl rfl
  | segment => exact .inr rfl

theorem Layered.outer {outer : List Mode} (layered : r.Layered) (inside : r.modes = .text :: outer) :
    ∃ depth, outer = modesOf depth := by
  obtain ⟨depth, code | text⟩ := layered
  · exact absurd (code.symm.trans inside) (noText_modesOf _ _)
  · exact ⟨depth, (List.cons.inj (inside.symm.trans text)).2⟩

theorem Layered.next (layered : r.Layered) : (after r.next).Layered := by
  have outcome := r.next_outcome
  generalize r.next = step at outcome ⊢
  cases outcome with
  | waiting => exact layered
  | @text _ step _ inside read =>
    obtain ⟨depth, rfl⟩ := layered.outer inside
    have modes := readText_modes r (modesOf depth)
    rw [read] at modes
    rcases modes with left | segment
    · exact ⟨depth, .inl left⟩
    · exact ⟨depth + 1, .inl segment⟩
  | ended => exact layered
  | @token c cs step _ outside _ read =>
    obtain ⟨depth, code | text⟩ := layered
    · have modes := readToken_modes r.skipBlanks c cs
      rw [read] at modes
      refine ⟨depth, modes.imp (·.trans code) fun quote => ?_⟩
      exact quote.trans (congrArg (Mode.text :: ·) code)
    · exact (outside _ text).elim

theorem Layered.resumeText (layered : r.Layered) : (after r.resumeText).Layered := by
  unfold Reader.resumeText
  dsimp only
  split
  · next outer inside =>
    obtain ⟨_ | depth, code | text⟩ := layered
    · cases inside.symm.trans code
    · cases inside.symm.trans text
    · exact ⟨depth, .inr (List.cons.inj (inside.symm.trans code)).2⟩
    · cases inside.symm.trans text
  · next outer inside =>
    obtain ⟨depth, rfl⟩ := layered.outer inside
    exact ⟨depth, .inl rfl⟩
  · exact layered

end Reader

namespace TokenStream

variable {s s' : TokenStream} {e : Located LexicalError}

section Keeps

variable {P : Reader → Prop} (keeps : ∀ r, P r → P (after r.next))

include keeps

theorem pull_keeps (count : Nat) (s : TokenStream) (start : P s.reader) : P (after (s.pull count)).reader := by
  induction count generalizing s with
  | zero => exact start
  | succ count ih =>
    have step := keeps s.reader start
    unfold pull
    split <;> rename_i read <;> rw [read] at step
    · exact step
    · exact step
    · exact ih _ step

theorem respond_keeps (request : Request) (s : TokenStream) (start : P s.reader) :
    P (s.respond request).2.reader := by
  have filled (count : Nat) : P (after (s.fill count)).reader := pull_keeps keeps _ s start
  cases request with
  | peek n =>
    have full := filled (needed n)
    simp only [respond, peek]
    split <;> rename_i ran <;> rw [ran] at full <;> exact full
  | consume n =>
    have full := filled (needed n)
    simp only [respond, consume]
    split <;> rename_i ran <;> rw [ran] at full <;> exact full
  | begin =>
    simp only [respond, begin?]
    cases s.journal <;> exact start
  | commit | reset => exact start

end Keeps

theorem perform_layered (command : Command) (s : TokenStream) (layered : s.reader.Layered) :
    (s.perform command).2.reader.Layered := by
  cases command with
  | request request => exact respond_keeps (fun _ => Layered.next) request s layered
  | resume =>
    have left := layered.resumeText
    simp only [perform, resumeText]
    by_cases clear : s.lookahead = [] ∧ s.reader.deferred = []
    · rw [if_pos clear]
      cases ran : s.reader.resumeText <;> rw [ran] at left <;> exact left
    · rw [if_neg clear]
      exact layered

theorem afterAll_layered (commands : List Command) (s : TokenStream) (layered : s.reader.Layered) :
    (s.afterAll commands).reader.Layered := by
  induction commands generalizing s with
  | nil => exact layered
  | cons command commands ih => exact ih _ (perform_layered command s layered)

theorem reached_layered (source : String) (commands : List Command) :
    ((ofSource source).afterAll commands).reader.Layered :=
  afterAll_layered commands _ ⟨0, .inl rfl⟩

-- The text of a string comes next, and nothing is read beyond the place where it begins.
structure InText (s : TokenStream) : Prop where
  clear : s.lookahead = []
  idle : s.reader.deferred = []
  text : s.reader.modes.head? = some .text

def withoutText (s : TokenStream) : TokenStream :=
  { s with reader := { s.reader with modes := s.reader.modes.tail } }

theorem resumeText_failed (failed : s.resumeText = .error e s') :
    e.value = .unbalancedInterpolation ∧ (s.InText ∧ s' = s.withoutText ∨ ¬ s.InText ∧ s' = s) := by
  unfold resumeText at failed
  split at failed
  · next clear =>
    unfold Reader.resumeText at failed
    dsimp only at failed
    split at failed
    · cases failed
    · next e r left =>
      cases failed
      split at left
      · cases left
      · next text =>
        cases left
        refine ⟨rfl, .inl ⟨⟨clear.1, clear.2, by rw [text]; rfl⟩, ?_⟩⟩
        rw [withoutText, text]
        rfl
      · next outside =>
        cases left
        refine ⟨rfl, .inr ⟨fun inside => ?_, rfl⟩⟩
        have text := inside.text
        rw [outside] at text
        cases text
  · next waits =>
    cases failed
    exact ⟨rfl, .inr ⟨fun inside => waits ⟨inside.clear, inside.idle⟩, rfl⟩⟩

-- The token that comes next is the text, or something else where the text was left.
theorem InText.noticed (inside : s.InText) (layered : s.reader.Layered) :
    s.withoutText.repliesTo [.request (.consume 0)] ≠ s.repliesTo [.request (.consume 0)] := by
  obtain ⟨outer, modes⟩ : ∃ outer, s.reader.modes = .text :: outer := by
    have text := inside.text
    cases modes : s.reader.modes with
    | nil => rw [modes] at text; cases text
    | cons mode outer =>
      rw [modes] at text
      cases text
      exact ⟨outer, rfl⟩
  obtain ⟨depth, rfl⟩ := layered.outer modes
  obtain ⟨t, r, read, kind, -⟩ := next_text (r := s.reader) ⟨modes, inside.idle⟩
  have left : s.withoutText.reader.Plain depth := ⟨congrArg List.tail modes, inside.idle⟩
  have step := next_plain left
  intro same
  have same : (replyTo (s.withoutText.consume 0)).1 = (replyTo (s.consume 0)).1 := (List.cons.inj same).1
  rw [consume_nil inside.clear, read, consume_nil (s := s.withoutText) inside.clear] at same
  rcases read' : s.withoutText.reader.next with ⟨_ | u, r'⟩ | ⟨e, r'⟩ <;> rw [read'] at same step
  · cases same
  · cases same
    exact step.1 kind
  · cases same

end TokenStream

-- Where no segment can be left, the attempt changes nothing that can be noticed later, unless the text of a string
-- comes next.  Then it takes the stream out of that string and does nothing else, and this is always noticed.
theorem failed_resume_unnoticed_iff (source : String) (before : List Command) {e : Located LexicalError}
    {s' : TokenStream} (failed : ((TokenStream.ofSource source).afterAll before).resumeText = .error e s') :
    let s := (TokenStream.ofSource source).afterAll before
    e.value = .unbalancedInterpolation ∧ ((∀ later, s'.repliesTo later = s.repliesTo later) ↔ ¬ s.InText) ∧
      (s.InText → s' = s.withoutText) := by
  intro s
  have layered := TokenStream.reached_layered source before
  obtain ⟨unbalanced, ⟨inside, left⟩ | ⟨outside, kept⟩⟩ := TokenStream.resumeText_failed failed
  · refine ⟨unbalanced, ⟨fun same => ?_, fun outside => absurd inside outside⟩, fun _ => left⟩
    rw [left] at same
    exact absurd (same _) (inside.noticed layered)
  · refine ⟨unbalanced, ⟨fun _ => outside, fun _ later => ?_⟩, fun inside => absurd inside outside⟩
    rw [kept]

-- The first attempt fails because a token is in the buffer.  That token begins a string within the segment, and once
-- it is taken, the text of this string comes next.
theorem failed_resume_within_segment :
    let s := (TokenStream.ofSource "\"$\x7b\"x").afterAll
      [.request (.consume 1), .request (.peek 0), .resume, .request .begin, .request (.consume 0)]
    s.InText ∧ ∃ e s', s.resumeText = .error e s' ∧ e.value = .unbalancedInterpolation ∧
      ((∀ later, s'.repliesTo later = s.repliesTo later) ↔ ¬ s.InText) ∧ (s.InText → s' = s.withoutText) := by
  intro s
  exact ⟨⟨rfl, rfl, rfl⟩, _, _, rfl, failed_resume_unnoticed_iff _ _ rfl⟩

-- Behind the quote that opens a string its text comes next; after the attempt, the same characters are a name.
theorem text_lost_by_failed_resume :
    let s := (TokenStream.ofSource "\"a").afterAll [.request (.consume 0)]
    ∃ s', s.resumeText = .error ⟨Span.empty 1, .unbalancedInterpolation⟩ s' ∧
      s.repliesTo [.request (.consume 0)] = [.token (some (.ofChars .stringText (some (.string "a")) 1 ['a']))] ∧
      s'.repliesTo [.request (.consume 0)] = [.token (some (.ofChars .identifier none 1 ['a']))] ∧
      s'.repliesTo [.request (.consume 0)] ≠ s.repliesTo [.request (.consume 0)] := by
  intro s
  refine ⟨_, rfl, rfl, rfl, fun same => ?_⟩
  cases (List.cons.inj same).1

end Frontend
