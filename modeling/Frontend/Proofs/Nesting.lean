import Frontend.Proofs.SourceTiling

-- Strings and their segments, and the braces in code, as they stand inside of each other.  A listing never
-- closes what it did not open, except for braces outside of all strings.  So in front of any of its tokens it
-- is known which strings are open, and how far each of them was read.

namespace Frontend

open Grammar Reader Scanner

inductive Stretch where
  | code
  -- From behind the start of a string: texts with a whole segment behind each.
  | pieces
deriving DecidableEq

def bracketKinds : List TokenKind :=
  [.leftBrace, .rightBrace, .stringBegin, .stringText, .stringEnd]

-- Everything that is opened in these tokens is closed in them again, the last one first.
inductive Bracketed : Stretch → List Token → Prop where
  | nil {stretch : Stretch} : Bracketed stretch []
  | token {t : Token} {ts : List Token} : t.kind ∉ bracketKinds → Bracketed .code ts → Bracketed .code (t :: ts)
  | braces {opening closing : Token} {inner ts : List Token} : opening.kind = .leftBrace →
      Bracketed .code inner → closing.kind = .rightBrace → Bracketed .code ts →
      Bracketed .code (opening :: inner ++ closing :: ts)
  | string {opening text ending : Token} {pieces ts : List Token} : opening.kind = .stringBegin →
      Bracketed .pieces pieces → text.kind = .stringText → ending.kind = .stringEnd → Bracketed .code ts →
      Bracketed .code (opening :: pieces ++ text :: ending :: ts)
  | segment {text closing : Token} {inner ts : List Token} : text.kind = .stringText →
      Bracketed .code inner → closing.kind = .rightBrace → Bracketed .pieces ts →
      Bracketed .pieces (text :: inner ++ closing :: ts)

variable {stretch : Stretch} {t text closing ending : Token} {ts us inner before after more : List Token}

namespace Bracketed

theorem append (first : Bracketed stretch ts) (others : Bracketed stretch us) : Bracketed stretch (ts ++ us) := by
  induction first with
  | nil => exact others
  | token plain _ ih => exact .token plain (ih others)
  | braces opens inner closes _ _ ih =>
    rw [List.append_assoc, List.cons_append]
    exact .braces opens inner closes (ih others)
  | string begins pieces text ends _ _ ih =>
    rw [List.append_assoc, List.cons_append, List.cons_append]
    exact .string begins pieces text ends (ih others)
  | segment text inner closes _ _ ih =>
    rw [List.append_assoc, List.cons_append]
    exact .segment text inner closes (ih others)

theorem single (plain : t.kind ∉ bracketKinds) : Bracketed .code [t] := .token plain .nil

theorem piece (isText : text.kind = .stringText) (nested : Bracketed .code inner)
    (closes : closing.kind = .rightBrace) : Bracketed .pieces (text :: inner ++ [closing]) :=
  .segment isText nested closes .nil

end Bracketed

-- How a text goes on: its string ends behind it, or a segment is opened and closed and the next text of the
-- string follows.
inductive Continues : List Token → Prop where
  | ends {ending : Token} {rest : List Token} : ending.kind = .stringEnd → Continues (ending :: rest)
  | resumes {inner : List Token} {closing resumed : Token} {rest : List Token} : Bracketed .code inner →
      closing.kind = .rightBrace → resumed.kind = .stringText →
      Continues (inner ++ closing :: resumed :: rest)

theorem Continues.append (continues : Continues ts) (us : List Token) : Continues (ts ++ us) := by
  cases continues with
  | ends ending => exact .ends ending
  | resumes nested closes text =>
    rw [List.append_assoc]
    exact .resumes nested closes text

theorem split_append (same : ts ++ us = before ++ t :: after) :
    (∃ mid, ts = before ++ t :: mid ∧ after = mid ++ us) ∨ ∃ mid, us = mid ++ t :: after := by
  rcases List.append_eq_append_iff.1 same with ⟨mid, rfl, found⟩ | ⟨mid, rfl, found⟩
  · exact .inr ⟨mid, found⟩
  · cases mid with
    | nil => exact .inr ⟨[], found.symm⟩
    | cons u mid =>
      cases found
      exact .inl ⟨mid, rfl, rfl⟩

theorem split_cons (same : t :: ts = before ++ text :: after) (other : t.kind ≠ text.kind) :
    ∃ mid, ts = mid ++ text :: after := by
  cases before with
  | nil => cases same; exact absurd rfl other
  | cons u before => cases same; exact ⟨before, rfl⟩

-- Behind the segments of a string there is one text more.
theorem Bracketed.continues (nested : Bracketed stretch ts) (isText : text.kind = .stringText) :
    ∀ before after more, ts = before ++ text :: after →
      (stretch = .pieces → ∃ last rest, more = last :: rest ∧ last.kind = .stringText) →
      Continues (after ++ more) := by
  induction nested with
  | nil =>
    intro before after more same
    exact absurd same.symm (List.append_ne_nil_of_right_ne_nil _ (List.cons_ne_nil _ _))
  | token plain _ ih =>
    intro before after more same inString
    obtain ⟨mid, rfl⟩ := split_cons same (fun kind => plain (by rw [kind, isText]; decide))
    exact ih _ _ _ rfl inString
  | @braces opening closing inner ts opens _ closes _ within behind =>
    intro before after more same _
    obtain ⟨mid, same⟩ := split_cons same (by rw [opens, isText]; decide)
    rcases split_append same with ⟨after', rfl, rfl⟩ | ⟨mid, same⟩
    · rw [List.append_assoc]
      exact within _ _ _ rfl nofun
    · obtain ⟨mid, rfl⟩ := split_cons same (by rw [closes, isText]; decide)
      exact behind _ _ _ rfl nofun
  | @string opening last ending pieces ts begins _ isLast ends _ within behind =>
    intro before after more same _
    obtain ⟨mid, same⟩ := split_cons same (by rw [begins, isText]; decide)
    rcases split_append same with ⟨after', rfl, rfl⟩ | ⟨mid, same⟩
    · rw [List.append_assoc]
      exact within _ _ _ rfl fun _ => ⟨last, _, rfl, isLast⟩
    · rcases List.cons_eq_append_iff.1 same with ⟨rfl, here⟩ | ⟨mid, rfl, later⟩
      · cases here
        exact .ends ends
      · obtain ⟨mid, rfl⟩ := split_cons later (by rw [ends, isText]; decide)
        exact behind _ _ _ rfl nofun
  | @segment first closing inner ts isFirst nested closes others within behind =>
    intro before after more same inString
    rw [List.cons_append] at same
    rcases List.cons_eq_append_iff.1 same with ⟨rfl, here⟩ | ⟨before, rfl, later⟩
    · cases here
      obtain ⟨last, rest, rfl, isLast⟩ := inString rfl
      rw [List.append_assoc]
      cases others with
      | nil => exact .resumes nested closes isLast
      | segment isNext _ _ _ => exact .resumes nested closes isNext
    · rcases split_append later with ⟨after', rfl, rfl⟩ | ⟨mid, same⟩
      · rw [List.append_assoc]
        exact within _ _ _ rfl nofun
      · obtain ⟨mid, rfl⟩ := split_cons same (by rw [closes, isText]; decide)
        exact behind _ _ _ rfl inString

-- In these tokens `depth` braces are opened that are not closed yet.
inductive Braced : Nat → List Token → Prop where
  | none {ts : List Token} : Bracketed .code ts → Braced 0 ts
  | brace {depth : Nat} {ts us : List Token} {opening : Token} : Braced depth ts →
      opening.kind = .leftBrace → Bracketed .code us → Braced (depth + 1) (ts ++ opening :: us)

-- Behind these tokens one is in code, inside of segments with as many open braces in them.  Outside of all strings
-- anything was listed.
inductive Unfinished : List Nat → List Token → Prop where
  | outside {ts : List Token} : Unfinished [] ts
  | segment {depth : Nat} {outer : List Nat} {earlier pieces inner : List Token} {opening text : Token} :
      Unfinished outer earlier → opening.kind = .stringBegin → Bracketed .pieces pieces → text.kind = .stringText →
      Braced depth inner → Unfinished (depth :: outer) (earlier ++ opening :: pieces ++ text :: inner)

-- Behind these tokens a text is next.  Its string was begun in code, and the segments before the text are closed.
def InString (segments : List Nat) (ts : List Token) : Prop :=
  ∃ earlier opening pieces, ts = earlier ++ opening :: pieces ∧ Unfinished segments earlier ∧
    opening.kind = .stringBegin ∧ Bracketed .pieces pieces

variable {depth : Nat} {segments outer : List Nat} {r r' : Reader}

theorem Braced.append (braced : Braced depth ts) (nested : Bracketed .code us) : Braced depth (ts ++ us) := by
  cases braced with
  | none first => exact .none (first.append nested)
  | brace before opens within =>
    rw [List.append_assoc, List.cons_append]
    exact .brace before opens (within.append nested)

theorem Braced.close (braced : Braced (depth + 1) ts) (closes : closing.kind = .rightBrace) :
    Braced depth (ts ++ [closing]) := by
  cases braced with
  | brace before opens within =>
    rw [List.append_assoc, List.cons_append]
    exact before.append (.braces opens within closes .nil)

namespace Unfinished

theorem append (unfinished : Unfinished segments ts) (nested : Bracketed .code us) : Unfinished segments (ts ++ us) := by
  cases unfinished with
  | outside => exact .outside
  | segment before begins pieces text braced =>
    rw [List.append_assoc, List.cons_append]
    exact .segment before begins pieces text (braced.append nested)

theorem brace (unfinished : Unfinished (depth :: outer) ts) (opens : t.kind = .leftBrace) :
    Unfinished ((depth + 1) :: outer) (ts ++ [t]) := by
  cases unfinished with
  | segment before begins pieces text braced =>
    rw [List.append_assoc, List.cons_append]
    exact .segment before begins pieces text (.brace braced opens .nil)

theorem close (unfinished : Unfinished ((depth + 1) :: outer) ts) (closes : t.kind = .rightBrace) :
    Unfinished (depth :: outer) (ts ++ [t]) := by
  cases unfinished with
  | segment before begins pieces text braced =>
    rw [List.append_assoc, List.cons_append]
    exact .segment before begins pieces text (braced.close closes)

-- The segment is over, and the string around it goes on.
theorem leave (unfinished : Unfinished (0 :: outer) ts) (closes : t.kind = .rightBrace) : InString outer (ts ++ [t]) := by
  cases unfinished with
  | @segment _ _ earlier pieces inner opening text before begins nested isText braced =>
    cases braced with
    | none within =>
      refine ⟨earlier, opening, pieces ++ (text :: inner ++ [t]), ?_, before, begins,
        nested.append (.piece isText within closes)⟩
      simp only [List.append_assoc, List.cons_append]

theorem begin (unfinished : Unfinished segments ts) (begins : t.kind = .stringBegin) : InString segments (ts ++ [t]) :=
  ⟨ts, t, [], rfl, unfinished, begins, .nil⟩

end Unfinished

theorem InString.enter (inString : InString segments ts) (isText : t.kind = .stringText) :
    Unfinished (0 :: segments) (ts ++ [t]) := by
  obtain ⟨earlier, opening, pieces, rfl, before, begins, nested⟩ := inString
  exact .segment before begins nested isText (.none .nil)

theorem InString.close (inString : InString segments ts) (isText : text.kind = .stringText)
    (ends : ending.kind = .stringEnd) : Unfinished segments (ts ++ [text] ++ [ending]) := by
  obtain ⟨earlier, opening, pieces, rfl, before, begins, nested⟩ := inString
  have whole := before.append (.string begins nested isText ends .nil)
  simpa only [List.append_assoc, List.cons_append, List.nil_append] using whole

theorem InRange.inert (range : InRange t) : t.kind ≠ .stringEnd ∧ Inert t.kind := by
  rcases range with kind | kind <;> rw [kind] <;> decide

-- In code neither a text nor the end of a string is read.
theorem next_inRange (modes : r.modes = modesOf depth) (waiting : ∀ u ∈ r.deferred, InRange u)
    (read : r.next = .ok (some t) r') : t.kind ≠ .stringText ∧ t.kind ≠ .stringEnd ∧ Behind depth t.kind r' ∧
      ∀ u ∈ r'.deferred, InRange u := by
  cases waits : r.deferred with
  | nil =>
    have plain : r.Plain depth := ⟨modes, waits⟩
    have step := next_plain plain
    rw [read] at step
    obtain ⟨_, _, _, _, -, -, cuts⟩ := next_cuts plain read
    exact ⟨step.1, step.2.1, step.2.2, cuts.waiting⟩
  | cons u queue =>
    obtain ⟨rfl, rfl⟩ := next_queued waits read
    rw [waits] at waiting
    obtain ⟨range, others⟩ := List.forall_mem_cons.1 waiting
    obtain ⟨noEnd, inert⟩ := range.inert
    rw [behind_inert inert]
    exact ⟨inert.2.1, noEnd, ⟨modes, fun v within => (others v within).inert.2⟩, others⟩

namespace Scanner

variable {s s' : Scanner}

-- The tokens that were listed up to where the scanner stands.
inductive History : Scanner → List Token → Prop where
  | code {r : Reader} {segments : List Nat} {ts : List Token} : r.modes = modesOf segments.length →
      (∀ t ∈ r.deferred, InRange t) → Unfinished segments ts → History ⟨r, segments⟩ ts
  | text {r : Reader} {segments : List Nat} {ts : List Token} : r.BeforeText segments.length →
      InString segments ts → History ⟨r, segments⟩ ts
  -- The quote that ends a string is missing at the end of the source only.
  | ending {rest : List Char} {offset : Nat} {segments : List Nat} {text ending : Token} {ts : List Token} :
      ending.kind = .stringEnd → (ending.text = "\"" ∨ ending.text = "" ∧ rest = []) →
      text.kind = .stringText → InString segments ts →
      History ⟨⟨rest, offset, modesOf segments.length, [ending]⟩, segments⟩ (ts ++ [text])

theorem history_start (source : String) : History (ofSource source) [] :=
  .code rfl (List.forall_mem_nil _) .outside

theorem history_code (unfinished : Unfinished segments ts) (noText : t.kind ≠ .stringText) (noEnd : t.kind ≠ .stringEnd)
    (stands : Behind segments.length t.kind r) (waiting : ∀ u ∈ r.deferred, InRange u) :
    History (behind segments t r) (ts ++ [t]) := by
  by_cases begins : t.kind = .stringBegin
  · rw [behind_ordinary (by rw [begins]; decide)]
    rw [begins] at stands
    exact .text stands (unfinished.begin begins)
  by_cases opens : t.kind = .leftBrace
  · rw [opens] at stands
    cases segments with
    | nil => simp only [behind, opens]; exact .code stands.modes waiting .outside
    | cons depth outer => simp only [behind, opens]; exact .code stands.modes waiting (unfinished.brace opens)
  by_cases closes : t.kind = .rightBrace
  · rw [closes] at stands
    have plain : r.Plain segments.length := stands
    rcases segments with _ | ⟨_ | depth, outer⟩ <;> simp only [behind, closes]
    · exact .code plain.modes waiting .outside
    · exact .text ⟨congrArg List.tail plain.modes, plain.idle⟩ (unfinished.leave closes)
    · exact .code plain.modes waiting (unfinished.close closes)
  rw [behind_ordinary ⟨noText, opens, closes⟩]
  rw [behind_inert ⟨begins, noText, opens, closes⟩] at stands
  exact .code stands.modes waiting (unfinished.append (.single (by simp [bracketKinds, *])))

-- Behind a text either its string ends or a segment of it starts.
theorem readText_history (inString : InString segments ts)
    (read : r.readText (modesOf segments.length) = .ok (some t) r') : History (behind segments t r') (ts ++ [t]) := by
  have outcome := r.readText_outcome (modesOf segments.length)
  rw [read] at outcome
  cases outcome with
  | unclosed =>
    rw [behind_text rfl]
    exact .ending rfl (.inr ⟨rfl, rfl⟩) rfl inString
  | closed =>
    rw [behind_text rfl]
    exact .ending rfl (.inl rfl) rfl inString
  | segment =>
    rw [behind_text rfl]
    exact .code rfl (List.forall_mem_nil _) (inString.enter rfl)

-- What one token adds to the history.
theorem History.next (history : History s ts) (read : s.reader.next = .ok (some t) r) :
    History (behind s.segments t r) (ts ++ [t]) := by
  cases history with
  | code modes waiting unfinished =>
    obtain ⟨noText, noEnd, stands, waiting'⟩ := next_inRange modes waiting read
    exact history_code unfinished noText noEnd stands waiting'
  | text before inString =>
    rw [next_inText before.idle before.modes] at read
    exact readText_history inString read
  | ending ends _ isText inString =>
    obtain ⟨rfl, rfl⟩ := next_queued rfl read
    rw [behind_ordinary (by rw [ends]; decide)]
    exact .code rfl (List.forall_mem_nil _) (inString.close isText ends)

theorem Runs.history (runs : Runs s us s') : ∀ {ts}, History s ts → History s' (ts ++ us) := by
  induction runs with
  | refl =>
    intro ts history
    rwa [List.append_nil]
  | @token s s' r t us read _ ih =>
    intro ts history
    have later := ih (history.next read)
    rwa [List.append_assoc] at later

-- A text is listed where its string was begun or goes on behind a segment.
theorem History.text_next (history : History s ts) (read : s.reader.next = .ok (some t) r)
    (isText : t.kind = .stringText) : InString s.segments ts := by
  cases history with
  | code modes waiting _ => exact absurd isText (next_inRange modes waiting read).1
  | text _ inString => exact inString
  | ending ends _ _ _ =>
    obtain ⟨rfl, rfl⟩ := next_queued rfl read
    rw [ends] at isText
    cases isText

-- The end of a string is its quote, unless it is the end of the listing as well.
theorem History.ending_next (history : History s ts) (read : s.reader.next = .ok (some t) r)
    (ends : t.kind = .stringEnd) : t.text = "\"" ∨ t.text = "" ∧ Lists (behind s.segments t r) [] := by
  cases history with
  | code modes waiting _ => exact absurd ends (next_inRange modes waiting read).2.1
  | text before _ =>
    obtain ⟨u, r', read', isText, -⟩ := next_text before
    cases read.symm.trans read'
    rw [isText] at ends
    cases ends
  | ending isEnd quoted _ _ =>
    obtain ⟨rfl, rfl⟩ := next_queued rfl read
    refine quoted.imp_right fun last => ⟨last.1, ?_⟩
    obtain ⟨-, rfl⟩ := last
    rw [behind_ordinary (by rw [isEnd]; decide)]
    exact .ended (next_empty rfl (fun _ => noText_modesOf _ _) rfl)

end Scanner

end Frontend
