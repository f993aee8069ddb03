import Frontend.Proofs.Lines
import Mathlib.Data.List.TakeWhile

-- The tokens of a source are its text, cut into pieces.  Each token is what stands in the source at its span.
-- Between two tokens there are blanks only, and where a string is read there is nothing but the `${` that
-- opens a segment.

namespace Frontend

open Reader Scanner Text

-- What may lie between a token of the first kind and one of the second.  At the ends of the source there is no
-- token.
inductive Gap : Option TokenKind → Option TokenKind → List Char → Prop where
  -- A text follows the start of its string, or the end of the segment before it, at once,
  | text {kind : TokenKind} : kind = .stringBegin ∨ kind = .rightBrace → Gap (some kind) (some .stringText) []
  -- and the end of the string follows its last text at once.
  | ending : Gap (some .stringText) (some .stringEnd) []
  -- Behind any other text a segment is opened.
  | segment {after : Option TokenKind} {blanks : List Char} : after ≠ some .stringText →
      after ≠ some .stringEnd → (∀ c ∈ blanks, isBlank c = true) →
      Gap (some .stringText) after ('$' :: '{' :: blanks)
  | blank {before after : Option TokenKind} {blanks : List Char} : before ≠ some .stringBegin →
      before ≠ some .stringText → after ≠ some .stringText → after ≠ some .stringEnd →
      (∀ c ∈ blanks, isBlank c = true) → Gap before after blanks

-- The token is the text that starts at byte `lo`, as far as its span has place for it.
structure Token.Covers (t : Token) (lo : Nat) (cs : List Char) : Prop where
  text : t.text = String.ofList (clamped cs)
  span : t.span = Span.ofBounds lo (lo + byteLength cs)

-- The tokens and the gaps between them are the characters from byte `lo` on.
inductive Tiles : Option TokenKind → Nat → List Char → List Token → Prop where
  | ended {before : Option TokenKind} {lo : Nat} {gap : List Char} : Gap before none gap →
      Tiles before lo gap []
  | token {before : Option TokenKind} {lo : Nat} {gap text rest : List Char} {t : Token} {ts : List Token} :
      Gap before (some t.kind) gap → t.Covers (lo + byteLength gap) text →
      Tiles (some t.kind) (lo + byteLength gap + byteLength text) rest ts →
      Tiles before lo (gap ++ text ++ rest) (t :: ts)

variable {depth lo offset : Nat} {r r' : Reader} {t : Token} {ts : List Token} {c : Char}
  {cs rest text digits : List Char} {before : Option TokenKind} {segments : List Nat}

theorem ofChars_covers {kind : TokenKind} {value : Option Value} :
    (Token.ofChars kind value lo text).Covers lo text :=
  ⟨rfl, rfl⟩

-- At the ends of the source.
theorem no_kind (kind : TokenKind) : none ≠ some kind := nofun

theorem byteLength_opening (cs : List Char) : byteLength ('$' :: '{' :: cs) = 2 + byteLength cs := by
  rw [byteLength_cons, byteLength_cons, ← Nat.add_assoc]
  rfl

-- The tokens, one right behind the other, and then the rest are the characters from byte `lo` on.
inductive Queued (offset : Nat) (rest : List Char) : Nat → List Char → List Token → Prop where
  | none : Queued offset rest offset rest []
  | token {lo : Nat} {t : Token} {text cs : List Char} {ts : List Token} : t.Covers lo text →
      Queued offset rest (lo + byteLength text) cs ts → Queued offset rest lo (text ++ cs) (t :: ts)

-- What waits in code are the points and the right bound of a range.
def InRange (t : Token) : Prop := t.kind = .dotDot ∨ t.kind = .integer

-- Behind a token of the given kind the characters from byte `lo` on are what the reader has found already and what
-- it is still to read.
inductive Laid (depth : Nat) (r : Reader) : Option TokenKind → Nat → List Char → Prop where
  | code {before : Option TokenKind} {lo : Nat} {cs : List Char} : r.modes = modesOf depth →
      (∀ t ∈ r.deferred, InRange t) → before ≠ some .stringBegin → before ≠ some .stringText →
      Queued r.offset r.rest lo cs r.deferred → Laid depth r before lo cs
  | segment {lo : Nat} : r.Plain depth → r.offset = lo + 2 →
      Laid depth r (some .stringText) lo ('$' :: '{' :: r.rest)
  | text {kind : TokenKind} : r.BeforeText depth → kind = .stringBegin ∨ kind = .rightBrace →
      Laid depth r (some kind) r.offset r.rest
  | ends {lo : Nat} {cs : List Char} : r.AtEnd depth → Queued r.offset r.rest lo cs r.deferred →
      Laid depth r (some .stringText) lo cs

theorem Queued.idle (queued : Queued offset rest lo cs []) : lo = offset ∧ cs = rest := by
  cases queued
  exact ⟨rfl, rfl⟩

theorem Queued.cons {kind : TokenKind} {value : Option Value} (text : List Char)
    (others : Queued offset rest (lo + byteLength text) cs ts) :
    Queued offset rest lo (text ++ cs) (.ofChars kind value lo text :: ts) :=
  .token ofChars_covers others

theorem Queued.last {kind : TokenKind} {value : Option Value} (whole : cs = text ++ rest)
    (behind : offset = lo + byteLength text) : Queued offset rest lo cs [.ofChars kind value lo text] := by
  subst whole behind
  exact .cons text .none

-- The token that was read is what stands at byte `lo`, and the reader stands behind it.
structure Cuts (lo : Nat) (cs : List Char) (t : Token) (r : Reader) (text rest : List Char) : Prop where
  covers : t.Covers lo text
  whole : cs = text ++ rest
  waiting : ∀ u ∈ r.deferred, InRange u
  queued : Queued r.offset r.rest (lo + byteLength text) rest r.deferred

def CutStep (lo : Nat) (cs : List Char) : Step (Option Token) → Prop
  | .ok (some t) r => ∃ text rest, Cuts lo cs t r text rest
  | _ => True

theorem cuts_ofChars {kind : TokenKind} {value : Option Value} (whole : cs = text ++ rest)
    (waiting : ∀ u ∈ r.deferred, InRange u) (queued : Queued r.offset r.rest (lo + byteLength text) rest r.deferred) :
    CutStep lo cs (.ok (some (.ofChars kind value lo text)) r) :=
  ⟨text, rest, ofChars_covers, whole, waiting, queued⟩

theorem cuts_one {kind : TokenKind} {value : Option Value} {modes : List Mode} (idle : r.deferred = [])
    (whole : cs = text ++ rest) : CutStep r.offset cs (.ok (some (.ofChars kind value r.offset text))
      ⟨rest, r.offset + byteLength text, modes, r.deferred⟩) := by
  rw [idle]
  exact cuts_ofChars whole (List.forall_mem_nil _) .none

theorem readRange_cuts (whole : cs = digits ++ '.' :: '.' :: rest) :
    CutStep r.offset cs (r.readRange digits rest) := by
  have outcome := r.readRange_outcome digits rest
  generalize r.readRange digits rest = step at outcome ⊢
  cases outcome with
  | leftGreat | rightGreat => trivial
  | unbounded fits =>
    obtain ⟨_, -, rfl⟩ := integerToken_eq_ok.1 fits
    exact cuts_ofChars whole (List.forall_mem_singleton.2 (.inl rfl)) (.last rfl rfl)
  | bounded fits _ fits' =>
    obtain ⟨_, -, rfl⟩ := integerToken_eq_ok.1 fits
    obtain ⟨_, -, rfl⟩ := integerToken_eq_ok.1 fits'
    have bound := List.takeWhile_append_dropWhile (p := Char.isDigit) (l := rest)
    refine cuts_ofChars whole
      (List.forall_mem_cons.2 ⟨.inl rfl, List.forall_mem_singleton.2 (.inr rfl)⟩) (.cons ['.', '.'] ?_)
    have points : byteLength ['.', '.'] = 2 := rfl
    exact .last bound.symm (by simp only [moveTo, points, Nat.add_assoc])

theorem readToken_cuts (idle : r.deferred = []) (c : Char) (cs : List Char) :
    CutStep r.offset (c :: cs) (r.readToken c cs) := by
  have number := numeral_chars c cs
  have outcome := r.readToken_outcome c cs
  generalize r.readToken c cs = step at outcome ⊢
  cases outcome with
  | symbol found => exact cuts_one idle (symbol_chars found)
  | quote => exact cuts_one idle rfl
  | word _ _ _ written =>
    have word := List.takeWhile_append_dropWhile (p := isAlphanumeric) (l := cs)
    exact cuts_one idle (by rw [written, List.cons_append, word])
  | range _ found read =>
    rw [found] at number
    exact read ▸ readRange_cuts number.symm
  | double _ found =>
    rw [found] at number
    exact cuts_one idle number.symm
  | integer _ found fits =>
    rw [found] at number
    obtain ⟨_, -, rfl⟩ := integerToken_eq_ok.1 fits
    exact cuts_one idle number.symm
  | great | unexpected => trivial

theorem next_cuts (plain : r.Plain depth) (read : r.next = .ok (some t) r') :
    ∃ blanks cs text rest, r.rest = blanks ++ cs ∧ (∀ c ∈ blanks, isBlank c = true) ∧
      Cuts (r.offset + byteLength blanks) cs t r' text rest := by
  have skipped := (List.takeWhile_append_dropWhile (p := isBlank) (l := r.rest)).symm
  have outcome := r.next_outcome
  rw [read] at outcome
  cases outcome with
  | waiting waits => cases plain.idle.symm.trans waits
  | text _ inside => exact absurd (plain.modes.symm.trans inside) (noText_modesOf _ _)
  | @token c cs _ _ _ front read =>
    have cut := readToken_cuts (r := r.skipBlanks) plain.idle c cs
    rw [read] at cut
    obtain ⟨text, rest, cuts⟩ := cut
    rw [← front] at cuts
    exact ⟨r.rest.takeWhile isBlank, r.rest.dropWhile isBlank, text, rest, skipped,
      List.all_eq_true.1 List.all_takeWhile, cuts⟩

theorem next_blank_end (read : r.next = .ok none r') :
    ∀ c ∈ r.rest, isBlank c = true := by
  have outcome := r.next_outcome
  rw [read] at outcome
  cases outcome with
  | text _ _ read => exact absurd rfl (readText_some read)
  | ended _ _ nothing => exact List.dropWhile_eq_nil_iff.1 nothing
  | token _ _ _ read => exact absurd rfl (readToken_some read)

-- A text is all that stands in front of the quote or the segment behind it.
theorem readText_laid {outer : List Mode} (modes : outer = modesOf depth)
    (read : r.readText outer = .ok (some t) r') : t.kind = .stringText ∧
    ∃ text rest, t.Covers r.offset text ∧ r.rest = text ++ rest ∧
      Laid (if r'.deferred = [] then depth + 1 else depth) r' (some .stringText)
        (r.offset + byteLength text) rest := by
  subst modes
  have whole := splitText_chars r.rest
  have outcome := r.readText_outcome (modesOf depth)
  rw [read] at outcome
  cases outcome with
  | unclosed found =>
    rw [found] at whole
    exact ⟨rfl, _, [], ofChars_covers, by rw [List.append_nil]; exact whole,
      .ends ⟨rfl, _, rfl, rfl⟩ (.last rfl rfl)⟩
  | @closed _ rest found =>
    rw [found] at whole
    exact ⟨rfl, _, '"' :: rest, ofChars_covers, whole, .ends ⟨rfl, _, rfl, rfl⟩ (.last rfl rfl)⟩
  | @segment _ rest found =>
    rw [found] at whole
    exact ⟨rfl, _, '$' :: '{' :: rest, ofChars_covers, whole, .segment ⟨rfl, rfl⟩ rfl⟩

theorem laid_behind (noText : t.kind ≠ .stringText) (stands : Behind segments.length t.kind r)
    (waiting : ∀ u ∈ r.deferred, InRange u) (queued : Queued r.offset r.rest lo cs r.deferred) :
    Laid (behind segments t r).segments.length (behind segments t r).reader (some t.kind) lo cs := by
  obtain ⟨kind, text, value, span⟩ := t
  by_cases begins : kind = .stringBegin
  · subst begins
    have before : r.BeforeText segments.length := stands
    rw [before.idle] at queued
    obtain ⟨rfl, rfl⟩ := queued.idle
    exact .text before (.inl rfl)
  · have code (modes : r.modes = modesOf segments.length) : Laid segments.length r (some kind) lo cs :=
      .code modes waiting (by simpa using begins) (by simpa using noText) queued
    rcases segments with _ | ⟨_ | depth, outer⟩ <;> cases kind <;> first
      | contradiction
      | exact code (InCode.modes stands)
      | exact code (Plain.modes stands)
      | (have plain : r.Plain (outer.length + 1) := stands
         rw [plain.idle] at queued
         obtain ⟨rfl, rfl⟩ := queued.idle
         exact .text ⟨congrArg List.tail plain.modes, plain.idle⟩ (.inr rfl))

-- A token that was put off comes next.
theorem next_queued {r r' : Reader} {t u : Token} {queue : List Token} (waits : r.deferred = u :: queue)
    (read : r.next = .ok (some t) r') : u = t ∧ { r with deferred := queue } = r' := by
  cases (next_waiting waits).symm.trans read
  exact ⟨rfl, rfl⟩

namespace Scanner

variable {s : Scanner}

theorem plain_next (plain : s.reader.Plain s.segments.length) (read : s.reader.next = .ok (some t) r) :
    t.kind ≠ .stringText ∧ t.kind ≠ .stringEnd ∧ ∃ blanks text rest, s.reader.rest = blanks ++ text ++ rest ∧
      (∀ c ∈ blanks, isBlank c = true) ∧ t.Covers (s.reader.offset + byteLength blanks) text ∧
      Laid (behind s.segments t r).segments.length (behind s.segments t r).reader (some t.kind)
        (s.reader.offset + byteLength blanks + byteLength text) rest := by
  have step := next_plain plain
  rw [read] at step
  obtain ⟨noText, noEnd, stands⟩ := step
  obtain ⟨blanks, cs, text, rest, front, blank, cuts⟩ := next_cuts plain read
  rw [cuts.whole, ← List.append_assoc] at front
  exact ⟨noText, noEnd, blanks, text, rest, front, blank, cuts.covers,
    laid_behind noText stands cuts.waiting cuts.queued⟩

-- One token more is cut off, with the gap in front of it.
theorem laid_next (laid : Laid s.segments.length s.reader before lo cs) (read : s.reader.next = .ok (some t) r) :
    ∃ gap text rest, cs = gap ++ text ++ rest ∧ Gap before (some t.kind) gap ∧ t.Covers (lo + byteLength gap) text ∧
      Laid (behind s.segments t r).segments.length (behind s.segments t r).reader (some t.kind)
        (lo + byteLength gap + byteLength text) rest := by
  cases laid with
  | code modes waiting noBegin noText queued =>
    cases waits : s.reader.deferred with
    | nil =>
      rw [waits] at queued
      obtain ⟨rfl, rfl⟩ := queued.idle
      obtain ⟨noText', noEnd, blanks, text, rest, front, blank, covers, behind⟩ := plain_next ⟨modes, waits⟩ read
      exact ⟨blanks, text, rest, front,
        .blank noBegin noText (by simpa using noText') (by simpa using noEnd) blank, covers, behind⟩
    | cons u queue =>
      obtain ⟨rfl, rfl⟩ := next_queued waits read
      rw [waits] at queued waiting
      obtain ⟨range, others⟩ := List.forall_mem_cons.1 waiting
      cases queued with
      | token covers queued =>
        have kinds : Grammar.Ordinary u.kind ∧ some u.kind ≠ some .stringBegin ∧
            some u.kind ≠ some .stringText ∧ some u.kind ≠ some .stringEnd := by
          rcases range with kind | kind <;> rw [kind] <;> decide
        obtain ⟨ordinary, noBegin', noText', noEnd'⟩ := kinds
        rw [behind_ordinary ordinary]
        exact ⟨[], _, _, rfl, .blank noBegin noText noText' noEnd' (List.forall_mem_nil _), covers,
          .code modes others noBegin' noText' queued⟩
  | segment plain offset =>
    obtain ⟨noText, noEnd, blanks, text, rest, front, blank, covers, behind⟩ := plain_next plain read
    have opening : s.reader.offset + byteLength blanks = lo + byteLength ('$' :: '{' :: blanks) := by
      rw [offset, byteLength_opening, Nat.add_assoc]
    rw [opening] at covers behind
    exact ⟨'$' :: '{' :: blanks, text, rest, congrArg ('$' :: '{' :: ·) front,
      .segment (by simpa using noText) (by simpa using noEnd) blank, covers, behind⟩
  | text stands kinds =>
    rw [next_inText stands.idle stands.modes] at read
    obtain ⟨kind, text, rest, covers, front, laid⟩ := readText_laid rfl read
    refine ⟨[], text, rest, front, ?_, covers, ?_⟩
    · rw [kind]
      exact .text kinds
    · rw [behind_text kind, kind, apply_ite List.length]
      exact laid
  | ends stands queued =>
    obtain ⟨u, waits, kind⟩ := stands.queued
    obtain ⟨rfl, rfl⟩ := next_queued waits read
    rw [waits] at queued
    cases queued with
    | token covers queued =>
      rw [behind_ordinary (by rw [kind]; decide)]
      refine ⟨[], _, _, rfl, by rw [kind]; exact .ending, covers,
        .code stands.modes (List.forall_mem_nil _) ?_ ?_ queued⟩
      all_goals rw [kind]; decide

theorem laid_end (laid : Laid s.segments.length s.reader before lo cs) (read : s.reader.next = .ok none r) :
    Gap before none cs := by
  have idle : s.reader.deferred = [] := by
    cases waits : s.reader.deferred with
    | nil => rfl
    | cons u queue => cases (next_waiting waits).symm.trans read
  cases laid with
  | code modes _ noBegin noText queued =>
    rw [idle] at queued
    obtain ⟨-, rfl⟩ := queued.idle
    exact .blank noBegin noText (no_kind _) (no_kind _) (next_blank_end read)
  | segment => exact .segment (no_kind _) (no_kind _) (next_blank_end read)
  | text stands _ =>
    rw [next_inText stands.idle stands.modes] at read
    exact absurd rfl (readText_some read)
  | ends stands _ =>
    obtain ⟨u, waits, -⟩ := stands.queued
    rw [waits] at idle
    cases idle

theorem Lists.tiles {ts : List Token} : ∀ {s : Scanner} {before : Option TokenKind} {lo : Nat} {cs : List Char},
    Lists s (ts.map .ok) → Laid s.segments.length s.reader before lo cs → Tiles before lo cs ts := by
  induction ts with
  | nil =>
    intro s before lo cs lists laid
    cases lists with
    | ended read => exact .ended (laid_end laid read)
  | cons t ts ih =>
    intro s before lo cs lists laid
    cases lists with
    | token read others =>
      obtain ⟨gap, text, rest, rfl, between, covers, behind⟩ := laid_next laid read
      exact .token between covers (ih others behind)

end Scanner

-- The text is what the source has from byte `lo` up to byte `hi`, and neither of them splits a character.
def Occurs (source text : String) (lo hi : Nat) : Prop :=
  ∃ front back, source = front ++ text ++ back ∧ front.utf8ByteSize = lo ∧ (front ++ text).utf8ByteSize = hi

theorem Occurs.extract {source text : String} {lo hi : Nat} (occurs : Occurs source text lo hi) :
    String.fromUTF8? (source.toUTF8.extract lo hi) = some text := by
  obtain ⟨front, back, rfl, rfl, rfl⟩ := occurs
  have bytes : (front ++ text ++ back).toUTF8.extract front.utf8ByteSize (front ++ text).utf8ByteSize =
      text.toByteArray := by
    rw [String.toUTF8, String.append_assoc, String.toByteArray_append, String.toByteArray_append,
      String.utf8ByteSize_append, ← String.size_toByteArray, ← String.size_toByteArray,
      ← Nat.add_zero front.toByteArray.size, Nat.add_assoc, Nat.zero_add, ByteArray.extract_append_size_add,
      ByteArray.extract_append_eq_left rfl]
  rw [bytes, String.fromUTF8?, dif_pos text.isValidUTF8]
  rfl

theorem occurs_of_chars {source : String} {front back : List Char} (whole : source.toList = front ++ text ++ back) :
    Occurs source (String.ofList text) (byteLength front) (byteLength front + byteLength text) := by
  refine ⟨String.ofList front, String.ofList back, ?_, byteLength_ofList front, ?_⟩
  · rw [← String.ofList_toList (s := source), whole, String.ofList_append, String.ofList_append]
  · rw [← String.ofList_append, byteLength_ofList, byteLength_append]

-- The places between tokens, from the start of the source to its end, each with the token before it and the one
-- behind it.
def neighbours (before : Option Token) : List Token → List (Option Token × Option Token)
  | [] => [(before, none)]
  | t :: ts => (before, some t) :: neighbours (some t) ts

def endOf : Option Token → Nat
  | none => 0
  | some t => t.span.hi

def startOf (source : String) : Option Token → Nat
  | none => source.utf8ByteSize
  | some t => t.span.lo

-- The tokens are the pieces of the source, with gaps between them that hold nothing to read.
structure Tiled (source : String) (tokens : List Token) : Prop where
  text : ∀ t ∈ tokens, Occurs source t.text t.span.lo t.span.hi ∧ t.span.extract? source = some t.text
  order : tokens.Pairwise fun t u => t.span.hi ≤ u.span.lo
  gap : ∀ sides ∈ neighbours none tokens, ∃ gap, Occurs source gap (endOf sides.1) (startOf source sides.2) ∧
    Gap (sides.1.map Token.kind) (sides.2.map Token.kind) gap.toList

theorem Tiles.tiled {source : String} (short : source.utf8ByteSize ≤ Span.maxLen) (tiles : Tiles before lo cs ts) :
    ∀ (previous : Option Token) (front : List Char), source.toList = front ++ cs → byteLength front = lo →
    previous.map Token.kind = before → endOf previous = lo →
    (∀ t ∈ ts, lo ≤ t.span.lo ∧ Occurs source t.text t.span.lo t.span.hi) ∧
    ts.Pairwise (fun t u => t.span.hi ≤ u.span.lo) ∧
    ∀ sides ∈ neighbours previous ts, ∃ gap, Occurs source gap (endOf sides.1) (startOf source sides.2) ∧
      Gap (sides.1.map Token.kind) (sides.2.map Token.kind) gap.toList := by
  induction tiles with
  | @ended before lo gap between =>
    rintro previous front whole rfl rfl ends
    refine ⟨List.forall_mem_nil _, .nil, List.forall_mem_singleton.2 ⟨String.ofList gap, ?_, ?_⟩⟩
    · have all : source.toList = front ++ gap ++ [] := by rw [List.append_nil]; exact whole
      have size : source.utf8ByteSize = byteLength front + byteLength gap := by
        rw [← byteLength_toList, whole, byteLength_append]
      rw [startOf, size, ends]
      exact occurs_of_chars all
    · rw [String.toList_ofList]
      exact between
  | @token before lo gap text rest t ts between covers _ ih =>
    rintro previous front whole rfl rfl ends
    have bytes : byteLength front + byteLength gap + byteLength text + byteLength rest =
        source.utf8ByteSize := by
      rw [← byteLength_toList, whole]
      simp only [byteLength_append, Nat.add_assoc]
    have lo : t.span.lo = byteLength front + byteLength gap := by rw [covers.span]; rfl
    have hi : t.span.hi = byteLength front + byteLength gap + byteLength text := by
      rw [covers.span, Span.hi_ofBounds _ _ (Nat.le_add_right _ _) (by omega)]
    have inFront : source.toList = front ++ gap ++ (text ++ rest) := by
      rw [whole]
      simp only [List.append_assoc]
    have here : source.toList = (front ++ gap) ++ text ++ rest := by
      rw [whole]
      simp only [List.append_assoc]
    have occurs := occurs_of_chars here
    have text_eq : String.ofList text = t.text := by
      rw [covers.text, clamped_eq (by omega)]
    rw [byteLength_append, ← hi, ← lo, text_eq] at occurs
    obtain ⟨texts, order, gaps⟩ := ih (some t) (front ++ gap ++ text) here
      (by simp only [byteLength_append]) rfl hi
    refine ⟨List.forall_mem_cons.2 ⟨⟨by omega, occurs⟩, fun u among => ⟨?_, (texts u among).2⟩⟩,
      .cons (fun u among => ?_) order, List.forall_mem_cons.2 ⟨⟨String.ofList gap, ?_, ?_⟩, gaps⟩⟩
    · have := (texts u among).1
      omega
    · have := (texts u among).1
      omega
    · rw [startOf, lo, ends]
      exact occurs_of_chars inFront
    · rw [String.toList_ofList]
      exact between

theorem tokensOf_tiled {source : String} {tokens : List Token} (short : source.utf8ByteSize < UInt32.size)
    (listed : tokensOf source = .ok tokens) : Tiled source tokens := by
  have start : Laid 0 (Reader.ofSource source) none 0 source.toList :=
    .code rfl (List.forall_mem_nil _) (no_kind _) (no_kind _) .none
  have tiles := (tokensOf_ok.1 listed).tiles start
  obtain ⟨texts, order, gaps⟩ := tiles.tiled (Nat.le_of_lt_succ short) none [] rfl rfl rfl rfl
  exact ⟨fun t among => ⟨(texts t among).2, (texts t among).2.extract⟩, order, gaps⟩

-- A range without blanks is three tokens without gaps, and a string that is not closed ends in an empty token.
theorem open_string_tiled :
    let source := "\"é$\x7b 1..2 + \"x\" \x7d"
    ∃ tokens, source.utf8ByteSize < UInt32.size ∧ tokensOf source = .ok tokens ∧ tokens.length = 12 ∧
      Tiled source tokens := by
  intro source
  have size : source.utf8ByteSize < UInt32.size := by decide +kernel
  have count : (tokensOf source).toOption.map List.length = some 12 := by decide +kernel
  cases listed : tokensOf source with
  | error e => rw [listed] at count; cases count
  | ok tokens =>
    rw [listed] at count
    exact ⟨tokens, size, rfl, Option.some.inj count, tokensOf_tiled size listed⟩

end Frontend
