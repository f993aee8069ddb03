import Frontend.Proofs.ExprTail
import Frontend.Proofs.Setting

-- Listing a part of a source in its setting.  Up to its end, a part is listed in its setting as it is on its
-- own.  What its end does depends on how the part stops: with nothing open, within the text of a string, or
-- with an error.

namespace Frontend

open Reader Scanner Grammar Text

-- The end of a string that nothing but the end of the input closes.
def Token.Abrupt (t : Token) : Prop := t.kind = .stringEnd ∧ t.text = ""

-- The scanner of the part, put into the setting.
def Setting.scanner (c : Setting) (s : Scanner) : Scanner := ⟨c.reader s.reader, s.segments ++ c.segments⟩

namespace Scanner

variable {c : Setting} {s s' : Scanner} {r : Reader} {t : Token} {ts us : List Token}
  {answers rest : List Answer} {segments : List Nat} {free : Prop}

-- What is still to be listed closes the segments that the scanner stands in, and no other ones.  Braces
-- outside of all segments are `free` or there are none.
def Balanced (free : Prop) (s : Scanner) (answers : List Answer) : Prop :=
  ∃ depth ts, answers = ts.map .ok ∧ s.segments = flat depth ∧ Walks free depth ts

theorem Balanced.outside (balanced : Balanced False s (.ok t :: rest)) (outside : s.segments = []) :
    t.kind ≠ .leftBrace ∧ t.kind ≠ .rightBrace := by
  obtain ⟨depth, ts, same, flat, walks⟩ := balanced
  cases ts with
  | nil => cases same
  | cons u us =>
    cases same
    cases walks with
    | ordinary ordinary => exact ordinary.2
    | literal text | opens text => rw [text]; decide
    | closes => rw [outside] at flat; cases flat
    | outside free => exact free.elim

theorem ends_iff_deferred (placed : Placed s) (read : s.reader.next = .ok (some t) r)
    (text : t.kind = .stringText) (lists : Lists (behind s.segments t r) (us.map .ok)) :
    us.head?.map Token.kind = some .stringEnd ↔ r.deferred ≠ [] := by
  have inner : (behind s.segments t r).reader = r := by rw [behind_text text]
  obtain ⟨r', next⟩ := lists.head
  rw [inner] at next
  exact ends_iff_queued (text ▸ placed.next read) next

theorem Balanced.behind (balanced : Balanced free s (.ok t :: rest)) (placed : Placed s)
    (read : s.reader.next = .ok (some t) r) (lists : Lists (behind s.segments t r) rest) :
    Balanced free (Scanner.behind s.segments t r) rest := by
  obtain ⟨depth, ts, same, flat, walks⟩ := balanced
  cases ts with
  | nil => cases same
  | cons u us =>
    cases same
    cases walks with
    | ordinary ordinary walks =>
      rw [behind_ordinary ordinary]
      exact ⟨depth, us, rfl, flat, walks⟩
    | literal text ends walks =>
      have queued := (ends_iff_deferred placed read text lists).1 ends
      refine ⟨depth, us, rfl, ?_, walks⟩
      simp [Scanner.behind, text, queued, flat]
    | opens text noEnd walks =>
      have idle := Classical.not_not.1 (mt (ends_iff_deferred placed read text lists).2 noEnd)
      refine ⟨depth + 1, us, rfl, ?_, walks⟩
      simp [Scanner.behind, text, idle, flat, List.replicate_succ]
    | closes brace walks =>
      refine ⟨_, us, rfl, ?_, walks⟩
      rw [flat]
      simp [Scanner.behind, brace, List.replicate_succ]
    | outside given noText walks =>
      refine ⟨0, us, rfl, ?_, walks⟩
      rw [flat]
      exact congrArg Scanner.segments (behind_nil noText r)

theorem behind_setting (stands : Behind segments.length t.kind r)
    (inner : c.segments = [] ∨ (segments = [] → t.kind ≠ .leftBrace ∧ t.kind ≠ .rightBrace)) :
    behind (segments ++ c.segments) (t.shift c.bytes) (c.reader r) = c.scanner (behind segments t r) := by
  obtain ⟨kind, text, value, span⟩ := t
  by_cases literal : kind = .stringText
  · subst literal
    by_cases idle : r.deferred = [] <;>
      simp [behind, Token.shift, Setting.scanner, Setting.reader, idle]
  · rcases segments with _ | ⟨_ | depth, outer⟩
    · rcases inner with bare | inert
      · simp only [List.nil_append, Setting.scanner, bare]
        cases kind <;> first | contradiction | rfl
      · obtain ⟨noOpening, noClosing⟩ := inert rfl
        have ordinary : Ordinary kind := ⟨literal, noOpening, noClosing⟩
        exact (behind_ordinary ordinary _ _).trans (congrArg c.scanner (behind_ordinary ordinary _ _).symm)
    · by_cases closes : kind = .rightBrace
      · subst closes
        have plain : r.Plain (outer.length + 1) := stands
        simp only [behind, List.cons_append, Setting.scanner, Setting.reader, Token.shift, plain.modes, modesOf,
          List.tail_cons]
      · cases kind <;> first | contradiction | rfl
    · cases kind <;> first | contradiction | rfl

-- How the listing of a part stops.
inductive Stopped (r : Reader) : Prop where
  | done : r.Done → Stopped r
  | unclosed : r.Unclosed → Stopped r
  | fault {e : Located LexicalError} {r' : Reader} : r.next = .error e r' → Stopped r

-- From `s` on, a part is listed in the setting up to `s'`, where it stops.
structure Reaches (c : Setting) (s : Scanner) (answers : List Answer) (ts : List Token) (s' : Scanner)
    (rest : List Answer) : Prop where
  listed : answers = ts.map .ok ++ rest
  lists : Lists s' rest
  placed : Placed s'
  balanced : ∀ {free}, Balanced free s answers → Balanced free s' rest
  runs : Runs (c.scanner s) (ts.map (Token.shift c.bytes)) (c.scanner s')
  stopped : Stopped s'.reader

theorem Reaches.stop (lists : Lists s answers) (placed : Placed s) (stopped : Stopped s.reader) :
    Reaches c s answers [] s answers :=
  ⟨rfl, lists, placed, id, .refl, stopped⟩

theorem Reaches.token (apart : c.Apart) (placed : Placed s) (closed : ¬ s.reader.Unclosed)
    (read : s.reader.next = .ok (some t) r) (lists : Lists (behind s.segments t r) answers)
    (inner : c.segments = [] ∨ Balanced False s (.ok t :: answers))
    (reaches : Reaches c (behind s.segments t r) answers ts s' rest) :
    Reaches c s (.ok t :: answers) (t :: ts) s' rest := by
  have more : ¬ s.reader.Done := fun done => by cases read.symm.trans done.next
  have step := next_setting apart closed more
  rw [read] at step
  have same := behind_setting (placed.next read) (inner.imp_right Balanced.outside)
  exact ⟨congrArg (.ok t :: ·) reaches.listed, reaches.lists, reaches.placed,
    fun balanced => reaches.balanced (balanced.behind placed read lists),
    .token step (same ▸ reaches.runs), reaches.stopped⟩

-- A part can close segments of its setting only if the braces in it are not even.
theorem Lists.reaches (apart : c.Apart) (lists : Lists s answers) (placed : Placed s)
    (inner : c.segments = [] ∨ Balanced False s answers) : ∃ ts s' rest, Reaches c s answers ts s' rest := by
  induction lists with
  | ended read => exact ⟨_, _, _, .stop (.ended read) placed (.done (next_none read).1)⟩
  | fault read => exact ⟨_, _, _, .stop (.fault read) placed (.fault read)⟩
  | @token s r t answers read others ih =>
    -- An unclosed text is still read from the part, but no longer as in the setting.
    by_cases unclosed : s.reader.Unclosed
    · exact ⟨_, _, _, .stop (.token read others) placed (.unclosed unclosed)⟩
    · obtain ⟨ts, s', rest, reaches⟩ := ih (placed.behind read)
        (inner.imp_right fun balanced => balanced.behind placed read others)
      exact ⟨t :: ts, s', rest, reaches.token apart placed unclosed read others inner⟩

theorem lists_unclosed (placed : Placed s) (unclosed : s.reader.Unclosed) :
    ∃ text ending : Token, Lists s [.ok text, .ok ending] ∧ ending.Abrupt := by
  obtain ⟨⟨rest, offset, modes, deferred⟩, segments⟩ := s
  obtain ⟨idle, ⟨outer, inside⟩, ends⟩ := unclosed
  cases idle
  cases inside
  have code : ∀ inner, outer ≠ .text :: inner := by
    rcases placed with code | before | atEnd
    · exact absurd code.modes.symm (noText_modesOf _ _)
    · rw [List.tail_eq_of_cons_eq before.modes]
      exact noText_modesOf _
    · exact absurd atEnd.modes.symm (noText_modesOf _ _)
  rcases found : splitText rest with ⟨text, stop⟩
  rw [found] at ends
  cases ends
  let ending := Token.ofChars .stringEnd none (offset + byteLength text) []
  have read : Reader.next ⟨rest, offset, .text :: outer, []⟩ =
      .ok (some (.ofChars .stringText (some (.string (String.ofList (clamped text)))) offset text))
        ⟨[], offset + byteLength text, outer, [ending]⟩ := by
    simp only [Reader.next, Reader.readText, found, ending]
  have read' : Reader.next ⟨[], offset + byteLength text, outer, [ending]⟩ =
      .ok (some ending) ⟨[], offset + byteLength text, outer, []⟩ := rfl
  exact ⟨_, ending, .token read (.token read' (.ended (Done.next ⟨rfl, code, rfl⟩))), rfl, rfl⟩

theorem modes_outside (placed : Placed s) (outside : s.segments = []) (done : s.reader.Done) :
    s.reader.modes = [] := by
  rw [Placed, outside] at placed
  rcases placed with code | before | ends
  · exact code.modes
  · exact absurd before.modes (done.code _)
  · exact ends.modes

-- A part that stops with nothing open is listed as a whole.
theorem reaches_end (apart : c.Apart) (lists : Lists s (ts.map .ok)) (placed : Placed s)
    (inner : c.segments = [] ∨ Balanced False s (ts.map .ok)) (closed : ∀ t ∈ ts.getLast?, ¬ t.Abrupt) :
    ∃ s', s'.reader.Done ∧ Placed s' ∧ (∀ {free}, Balanced free s (ts.map .ok) → s'.segments = []) ∧
      Runs (c.scanner s) (ts.map (Token.shift c.bytes)) (c.scanner s') := by
  obtain ⟨us, s', rest, reaches⟩ := lists.reaches apart placed inner
  have listed := reaches.listed
  cases reaches.stopped with
  | done done =>
    cases reaches.lists.unique (.ended done.next)
    rw [List.append_nil] at listed
    cases ok_injective listed
    refine ⟨s', done, reaches.placed, fun {free} balanced => ?_, reaches.runs⟩
    obtain ⟨depth, vs, none, flat, walks⟩ := reaches.balanced balanced
    cases vs with
    | cons v vs => cases none
    | nil => cases walks; exact flat
  | unclosed unclosed =>
    obtain ⟨text, ending, stop, abrupt⟩ := lists_unclosed reaches.placed unclosed
    rw [reaches.lists.unique stop] at listed
    have same : ts = us ++ [text, ending] := ok_injective (by simpa using listed)
    exact absurd abrupt (closed ending (by simp [same]))
  | fault failed =>
    rw [reaches.lists.unique (.fault failed)] at listed
    exact absurd listed error_not_listed

end Scanner

-- The end of the source, but for one character.
def Setting.before (bytes : Nat) (d : Char) : Setting := ⟨bytes, [d], [], []⟩

-- The character is a token of its own wherever it stands.
structure Single (d : Char) (kind : TokenKind) : Prop where
  stops : Stops d
  visible : isBlank d = false
  symbol : ∀ ds, symbol? d ds = some (kind, [d], ds)

variable {c : Setting} {s : Scanner} {r : Reader} {d : Char} {ds : List Char} {kind : TokenKind}
  {bytes : Nat} {source : String}

theorem Single.apart (single : Single d kind) (bytes : Nat) : (Setting.before bytes d).Apart where
  stops e first := by
    cases first
    exact single.stops
  code := nofun

theorem Single.plain (single : Single d kind) (ordinary : Ordinary kind) : d ≠ '"' ∧ d ≠ '{' := by
  constructor
  · rintro rfl
    cases single.symbol []
  · rintro rfl
    cases single.symbol []
    exact absurd rfl ordinary.2.1

theorem Single.next (single : Single d kind) (apart : c.Apart) (after : c.after = d :: ds) (done : r.Done) :
    ∃ lo, (c.reader r).next =
      .ok (some (.ofChars kind none lo [d])) ⟨ds, lo + byteLength [d], r.modes ++ c.modes, []⟩ := by
  let lo := c.bytes + r.skipBlanks.offset
  have stands : c.reader r.skipBlanks = ⟨d :: ds, lo, r.modes ++ c.modes, []⟩ := by
    simp only [Setting.reader, after, skipBlanks, moveTo, done.blank, done.idle, List.nil_append, List.map_nil, lo]
  have code : ∀ outer, r.modes ++ c.modes ≠ .text :: outer := code_setting apart done.code
  refine ⟨lo, ?_⟩
  rw [done.next_setting apart, stands, next_code rfl code]
  simp [skipBlanks, moveTo, single.visible, readToken, single.symbol]

theorem Single.ends (single : Single d kind) (ordinary : Ordinary kind) (done : s.reader.Done) :
    ∃ lo, Lists ((Setting.before bytes d).scanner s) [.ok (.ofChars kind none lo [d])] := by
  have apart := single.apart bytes
  obtain ⟨lo, read⟩ := single.next apart rfl done
  refine ⟨lo, .token read ?_⟩
  rw [behind_ordinary ordinary]
  exact .ended (Done.next ⟨rfl, code_setting apart done.code, rfl⟩)

-- What is listed in front of the character is what is listed without it.
theorem Single.lists (single : Single d kind) (ordinary : Ordinary kind) (bytes : Nat) {ts : List Token}
    (listed : tokensOf source = .ok ts) (closed : ∀ t ∈ ts.getLast?, ¬ t.Abrupt) :
    ∃ lo, Lists ((Setting.before bytes d).scanner (ofSource source))
      ((ts.map (Token.shift bytes) ++ [Token.ofChars kind none lo [d]]).map .ok) := by
  obtain ⟨s', done, -, -, runs⟩ := reaches_end (single.apart bytes) (tokensOf_ok.1 listed) (placed_start source)
    (.inl rfl) closed
  obtain ⟨lo, ends⟩ := single.ends ordinary done
  exact ⟨lo, runs.lists_tokens ends⟩

theorem splitText_open {xs : List Char} (noQuote : d ≠ '"') (noBrace : d ≠ '{')
    (ends : (splitText xs).2 = .endOfInput) : (splitText (xs ++ [d])).2 = .endOfInput := by
  fun_induction splitText xs with
  | case1 => simp [splitText]
  | case2 cs => cases ends
  | case3 cs => cases ends
  | case4 x cs noQuote' noSegment text stop found ih =>
    have apart : splitText (x :: cs ++ [d]) = _ := splitText_cons noQuote' fun dollar brace => by
      cases cs with
      | nil => exact noBrace (Option.some.inj brace)
      | cons y cs => exact noSegment cs dollar (by cases brace; rfl)
    rw [apart]
    exact ih (by rw [found]; exact ends)

theorem unclosed_before (noQuote : d ≠ '"') (noBrace : d ≠ '{') (unclosed : r.Unclosed) :
    ((Setting.before bytes d).reader r).Unclosed where
  idle := congrArg (List.map _) unclosed.idle
  text := by
    obtain ⟨outer, inside⟩ := unclosed.text
    exact ⟨outer, by simp [Setting.reader, Setting.before, inside]⟩
  ends := splitText_open noQuote noBrace unclosed.ends

-- Where the character comes up as a token, it closes nothing that is open before it.
theorem Single.of_lists (single : Single d kind) (ordinary : Ordinary kind) {us : List Token} {t : Token}
    (closes : t.kind ≠ .stringEnd)
    (lists : Lists ((Setting.before bytes d).scanner (ofSource source)) ((us ++ [t]).map .ok)) :
    ∃ ts, tokensOf source = .ok ts ∧ us = ts.map (Token.shift bytes) := by
  -- The part may stop in any way on its own; only one of them leaves the character to be a token.
  obtain ⟨answers, listing⟩ := exists_lists source
  obtain ⟨noQuote, noBrace⟩ := single.plain ordinary
  have apart := single.apart bytes
  obtain ⟨ts, s', rest, reaches⟩ := listing.reaches apart (placed_start source) (.inl rfl)
  have placed : Placed ((Setting.before bytes d).scanner s') := reaches.runs.placed (.inl ⟨rfl, nofun⟩)
  cases reaches.stopped with
  | done done =>
    cases reaches.lists.unique (.ended done.next)
    obtain ⟨lo, ends⟩ := single.ends ordinary done
    have same : us ++ [t] = ts.map (Token.shift bytes) ++ [.ofChars kind none lo [d]] :=
      ok_injective (lists.unique (reaches.runs.lists_tokens ends))
    have whole := reaches.listed
    rw [List.append_nil] at whole
    exact ⟨ts, tokensOf_ok.2 (whole ▸ listing), (List.append_inj' same rfl).1⟩
  | unclosed unclosed =>
    obtain ⟨text, ending, ends, abrupt⟩ := lists_unclosed placed (unclosed_before noQuote noBrace unclosed)
    have same : us ++ [t] = ts.map (Token.shift bytes) ++ [text, ending] :=
      ok_injective (lists.unique (reaches.runs.lists_tokens ends))
    have last : t = ending := by simpa using congrArg List.getLast? same
    rw [last] at closes
    exact absurd abrupt.1 closes
  | @fault e r failed =>
    have more : ¬ s'.reader.Done := fun done => by cases failed.symm.trans done.next
    have closed : ¬ s'.reader.Unclosed := fun unclosed => by
      obtain ⟨text, ending, ends, -⟩ := lists_unclosed reaches.placed unclosed
      cases ends.unique (.fault failed)
    have step := next_setting apart closed more
    rw [failed] at step
    exact absurd (lists.unique (reaches.runs.lists (.fault step))) error_not_listed

end Frontend
