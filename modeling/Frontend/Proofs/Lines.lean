import Frontend.Proofs.NodeGrammar
import Frontend.Proofs.Parts

-- Listing one source after another one.  Where the tokens of a source leave no string and no segment open, and
-- a line break stands behind them, the next source is listed as it is on its own, moved by the bytes before
-- it.

namespace Frontend

open Reader Scanner Grammar Text

theorem splitText_chars (cs : List Char) :
    match splitText cs with
    | (text, .endOfInput) => cs = text
    | (text, .quote rest) => cs = text ++ '"' :: rest
    | (text, .segment rest) => cs = text ++ '$' :: '{' :: rest := by
  fun_induction splitText cs with
  | case1 => rfl
  | case2 cs => rfl
  | case3 cs => rfl
  | case4 c cs _ _ text stop found ih =>
    rw [found] at ih
    cases stop <;> exact congrArg (c :: ·) ih

theorem symbol_chars {c : Char} {cs text rest : List Char} {kind : TokenKind}
    (found : symbol? c cs = some (kind, text, rest)) :
    c :: cs = text ++ rest := by
  rcases symbol_cases found with ⟨d, -, rfl, rfl⟩ | ⟨-, -, rfl, rfl⟩ <;> rfl

def Numeral.chars : Numeral → List Char
  | .integer digits rest => digits ++ rest
  | .double whole fraction rest => whole ++ '.' :: fraction ++ rest
  | .range digits rest => digits ++ '.' :: '.' :: rest

theorem numeral_chars (c : Char) (cs : List Char) : (Numeral.ofChars c cs).chars = c :: cs := by
  have whole := List.takeWhile_append_dropWhile (p := Char.isDigit) (l := cs)
  unfold Numeral.ofChars
  dsimp only
  split
  · next rest found =>
    rw [found] at whole
    exact congrArg (c :: ·) whole
  · next d rest _ found =>
    have fraction := List.takeWhile_append_dropWhile (p := Char.isDigit) (l := rest)
    rw [found] at whole
    split
    · simp only [Numeral.chars, List.cons_append, List.append_assoc, fraction, whole]
    · exact congrArg (c :: ·) whole
  · exact congrArg (c :: ·) whole

theorem byteLength_ofList (cs : List Char) : (String.ofList cs).utf8ByteSize = byteLength cs := by
  induction cs with
  | nil => rfl
  | cons c cs ih =>
    have single : (String.ofList [c]).utf8ByteSize = c.utf8Size := by
      rw [← String.size_toByteArray, String.toByteArray_ofList, List.utf8Encode_singleton,
        List.size_toByteArray, String.length_utf8EncodeChar]
    rw [← List.singleton_append, String.ofList_append, String.utf8ByteSize_append, single, ih]
    rfl

theorem byteLength_toList (source : String) : byteLength source.toList = source.utf8ByteSize := by
  rw [← byteLength_ofList, String.ofList_toList]

theorem byteLength_span (p : Char → Bool) (cs : List Char) :
    byteLength (cs.takeWhile p) + byteLength (cs.dropWhile p) = byteLength cs := by
  rw [← byteLength_append, List.takeWhile_append_dropWhile]

-- The bytes of the whole input, as far as the reader can tell.
def Reader.bytes (r : Reader) : Nat := r.offset + byteLength r.rest

def BytesKept (bytes : Nat) : Step (Option Token) → Prop
  | .ok _ r => r.bytes = bytes
  | .error _ r => r.bytes = bytes

theorem splitText_bytes (cs : List Char) :
    match splitText cs with
    | (text, .endOfInput) => byteLength text = byteLength cs
    | (text, .quote rest) => byteLength text + 1 + byteLength rest = byteLength cs
    | (text, .segment rest) => byteLength text + 2 + byteLength rest = byteLength cs := by
  have quote : Char.utf8Size '"' = 1 := rfl
  have dollar : Char.utf8Size '$' = 1 := rfl
  have brace : Char.utf8Size '{' = 1 := rfl
  have chars := splitText_chars cs
  rcases found : splitText cs with ⟨text, stop⟩
  rw [found] at chars
  cases stop <;> dsimp only at chars ⊢ <;>
    simp only [chars, byteLength_append, byteLength_cons, quote, dollar, brace] <;> omega

theorem symbol_bytes {c : Char} {cs text rest : List Char} {kind : TokenKind}
    (found : symbol? c cs = some (kind, text, rest)) :
    byteLength text + byteLength rest = byteLength (c :: cs) := by
  rw [symbol_chars found, byteLength_append]

def Numeral.bytes : Numeral → Nat
  | .integer digits rest => byteLength digits + byteLength rest
  | .double whole fraction rest => byteLength (whole ++ '.' :: fraction) + byteLength rest
  | .range digits rest => byteLength digits + 2 + byteLength rest

theorem Numeral.byteLength_chars (numeral : Numeral) : byteLength numeral.chars = numeral.bytes := by
  have point : Char.utf8Size '.' = 1 := rfl
  cases numeral <;> simp only [chars, bytes, byteLength_append, byteLength_cons, point, Nat.add_assoc]
  omega

theorem numeral_bytes (c : Char) (cs : List Char) : (Numeral.ofChars c cs).bytes = byteLength (c :: cs) := by
  rw [← Numeral.byteLength_chars, numeral_chars]

namespace Reader

variable {r : Reader} {c : Char} {cs : List Char}

theorem readText_bytes (r : Reader) (outer : List Mode) : BytesKept r.bytes (r.readText outer) := by
  have whole := splitText_bytes r.rest
  have outcome := r.readText_outcome outer
  generalize r.readText outer = step at outcome ⊢
  cases outcome with
  | unclosed found | closed found | segment found =>
    simp only [found, BytesKept, bytes, byteLength_nil] at whole ⊢
    omega

theorem readRange_bytes {digits rest : List Char} (whole : byteLength digits + 2 + byteLength rest = byteLength r.rest) :
    BytesKept r.bytes (r.readRange digits rest) := by
  have point : Char.utf8Size '.' = 1 := rfl
  have bound := byteLength_span Char.isDigit rest
  have outcome := r.readRange_outcome digits rest
  generalize r.readRange digits rest = step at outcome ⊢
  cases outcome with
  | leftGreat =>
    simp only [BytesKept, bytes, moveTo, byteLength_cons, point]
    omega
  | unbounded | rightGreat | bounded =>
    simp only [BytesKept, bytes, moveTo]
    omega

theorem readToken_bytes (front : r.rest = c :: cs) : BytesKept r.bytes (r.readToken c cs) := by
  have kept {count : Nat} {rest : List Char} (whole : count + byteLength rest = byteLength (c :: cs)) :
      (r.moveTo count rest).bytes = r.bytes := by
    simp only [bytes, moveTo, front]
    omega
  have single : (r.moveTo (byteLength [c]) cs).bytes = r.bytes := kept (by simp)
  have number := numeral_bytes c cs
  have outcome := r.readToken_outcome c cs
  generalize r.readToken c cs = step at outcome ⊢
  cases outcome with
  | symbol found => exact kept (symbol_bytes found)
  | quote | unexpected => exact single
  | word _ _ _ written =>
    have word := byteLength_span isAlphanumeric cs
    exact kept (by simp only [written, byteLength_cons]; omega)
  | range _ found read =>
    rw [found] at number
    exact read ▸ readRange_bytes (front ▸ number)
  | double _ found | integer _ found | great _ found =>
    rw [found] at number
    exact kept number

theorem skipBlanks_bytes (r : Reader) : r.skipBlanks.bytes = r.bytes := by
  have whole := byteLength_span isBlank r.rest
  simp only [bytes, skipBlanks, moveTo]
  omega

theorem next_bytes (r : Reader) : BytesKept r.bytes r.next := by
  have outcome := r.next_outcome
  generalize r.next = step at outcome ⊢
  cases outcome with
  | waiting => rfl
  | text _ _ read => exact read ▸ readText_bytes r _
  | ended => exact skipBlanks_bytes r
  | token _ _ front read =>
    rw [← skipBlanks_bytes r]
    exact read ▸ readToken_bytes front

end Reader

namespace Scanner

variable {s s' : Scanner} {t : Token} {ts : List Token} {answers : List Answer}

theorem behind_bytes (segments : List Nat) (t : Token) (r : Reader) :
    (behind segments t r).reader.bytes = r.bytes := by
  unfold behind
  split <;> rfl

theorem Runs.bytes (runs : Runs s ts s') : s'.reader.bytes = s.reader.bytes := by
  induction runs with
  | refl => rfl
  | @token s s' r t ts read _ ih =>
    have kept := next_bytes s.reader
    rw [read] at kept
    rw [ih, behind_bytes]
    exact kept

end Scanner

def Setting.behind (bytes : Nat) : Setting := ⟨bytes, [], [], []⟩

theorem Setting.behind_apart (bytes : Nat) : (behind bytes).Apart := ⟨nofun, nofun⟩

variable {bytes : Nat} {r : Reader}

theorem Reader.skipBlanks_ended (empty : r.rest = []) : r.skipBlanks = r := by
  obtain ⟨rest, offset, modes, deferred⟩ := r
  cases empty
  rfl

theorem Reader.next_behind (bytes : Nat) (r : Reader) :
    ((Setting.behind bytes).reader r).next = (Setting.behind bytes).step r.next := by
  have apart := Setting.behind_apart bytes
  by_cases unclosed : r.Unclosed
  · -- The end of the input closes the text here as well.
    obtain ⟨rest, offset, modes, deferred⟩ := r
    obtain ⟨idle, ⟨outer, inside⟩, ends⟩ := unclosed
    cases idle
    cases inside
    rcases found : splitText rest with ⟨text, stop⟩
    rw [found] at ends
    cases ends
    simp [next, readText, Setting.reader, Setting.behind, Setting.step, found, ← Token.ofChars_shift, Nat.add_assoc]
  · by_cases done : r.Done
    · have none : r.skipBlanks.rest = [] := done.blank
      have blank : ((Setting.behind bytes).reader r.skipBlanks).rest = [] := by
        simp [Setting.reader, Setting.behind, none]
      have ended : ((Setting.behind bytes).reader r.skipBlanks).Done :=
        ⟨congrArg (List.map _) done.idle, code_setting apart done.code, by rw [blank]; rfl⟩
      rw [done.next_setting apart, done.next, ended.next, skipBlanks_ended blank]
      rfl
    · exact next_setting apart unclosed done

theorem Token.shift_zero (t : Token) : t.shift 0 = t := by
  simp only [Token.shift, Span.shift, Nat.zero_add]

namespace Scanner

variable {s : Scanner} {answers : List Answer}

theorem Lists.behind (lists : Lists s answers) (placed : Placed s) (bytes : Nat) :
    Lists ((Setting.behind bytes).scanner s) (answers.map (shiftOutcome bytes)) := by
  induction lists with
  | @ended s r read =>
    have step := next_behind bytes s.reader
    rw [read] at step
    exact .ended step
  | @fault s r e read =>
    have step := next_behind bytes s.reader
    rw [read] at step
    exact .fault step
  | @token s r t rest read _ ih =>
    have step := next_behind bytes s.reader
    rw [read] at step
    refine .token step ?_
    have same : Scanner.behind (s.segments ++ (Setting.behind bytes).segments) (t.shift bytes)
        ((Setting.behind bytes).reader r) = (Setting.behind bytes).scanner (Scanner.behind s.segments t r) :=
      behind_setting (placed.next read) (.inl rfl)
    exact same ▸ ih (placed.behind read)

-- No blank is part of a name.
theorem blankRanges_apart : ∀ blank ∈ blankRanges, ∀ letter ∈ alphabeticRanges ++ numericRanges,
    blank.2 < letter.1 ∨ letter.2 < blank.1 := by
  decide +kernel

theorem noDigit_of_noWord {d : Char} (word : isAlphanumeric d = false) : d.isDigit = false := by
  rw [Bool.eq_false_iff]
  intro digit
  have numeric : isNumeric d = true :=
    List.any_eq_true.2 ⟨(0x30, 0x39), by decide,
      (CharRange.contains_iff _ _).2 (by simpa [Char.isDigit, UInt32.le_iff_toNat_le] using digit)⟩
  rw [isAlphanumeric, numeric, Bool.or_true] at word
  cases word

theorem blank_stops {d : Char} (blank : isBlank d = true) : Stops d := by
  have word : isAlphanumeric d = false := by
    rw [Bool.eq_false_iff]
    intro letter
    obtain ⟨range, among, inside⟩ := List.any_eq_true.1 blank
    have letters : (alphabeticRanges ++ numericRanges).any (·.contains d) = true := by
      rw [List.any_append]
      exact letter
    obtain ⟨range', among', inside'⟩ := List.any_eq_true.1 letters
    have apart := blankRanges_apart range among range' among'
    rw [CharRange.contains_iff] at inside inside'
    omega
  refine ⟨word, ?_, ?_, ?_⟩
  · exact noDigit_of_noWord word
  · rintro rfl
    exact absurd blank (by decide)
  · rintro rfl
    exact absurd blank (by decide)

-- One character stands between the part and the other source.
def Setting.inFront (d : Char) (source : String) : Setting := ⟨0, d :: source.toList, [], []⟩

theorem Setting.inFront_apart {d : Char} (stops : Stops d) (source : String) : (inFront d source).Apart where
  stops e first := by
    cases first
    exact stops
  code := nofun

-- Behind the first source and the blank, the second one stands as it does on its own.
theorem next_joined {a b : String} {d : Char} (blank : isBlank d = true) {s : Scanner} (done : s.reader.Done)
    (modes : s.reader.modes = []) (bytes : s.reader.bytes = a.utf8ByteSize) :
    ((Setting.inFront d b).reader s.reader).next =
      ((Setting.behind (a.utf8ByteSize + d.utf8Size)).reader (Reader.ofSource b)).next := by
  have left : s.reader.skipBlanks.rest = [] := done.blank
  have offset : s.reader.skipBlanks.offset = a.utf8ByteSize := by
    rw [← bytes, ← skipBlanks_bytes, Reader.bytes, left]
    rfl
  have stands : (Setting.inFront d b).reader s.reader.skipBlanks = ⟨d :: b.toList, a.utf8ByteSize, [], []⟩ := by
    have idle : s.reader.skipBlanks.deferred = [] := done.idle
    have outside : s.reader.skipBlanks.modes = [] := modes
    simp [Setting.reader, Setting.inFront, left, offset, idle, outside]
  have behind : (Setting.behind (a.utf8ByteSize + d.utf8Size)).reader (Reader.ofSource b) =
      ⟨b.toList, a.utf8ByteSize + d.utf8Size, [], []⟩ := by
    simp [Setting.reader, Setting.behind, Reader.ofSource]
  rw [done.next_setting (Setting.inFront_apart (blank_stops blank) b), stands, next_blank blank, behind]

theorem inFront_start {a b joined : String} {d : Char} (whole : joined.toList = a.toList ++ d :: b.toList) :
    (Setting.inFront d b).scanner (ofSource a) = ofSource joined := by
  simp [Setting.scanner, Setting.reader, Setting.inFront, ofSource, Reader.ofSource, whole]

theorem inFront_unmoved {d : Char} (source : String) (ts : List Token) :
    ts.map (Token.shift (Setting.inFront d source).bytes) = ts :=
  (List.map_congr_left fun t _ => t.shift_zero).trans (List.map_id _)

theorem lists_joined {a b joined : String} {d : Char} {ts : List Token} (blank : isBlank d = true)
    (whole : joined.toList = a.toList ++ d :: b.toList) (listed : tokensOf a = .ok ts) (walks : Walks True 0 ts)
    (closed : ∀ t ∈ ts.getLast?, ¬ t.Abrupt) (others : Lists (ofSource b) answers) :
    Lists (ofSource joined) (ts.map .ok ++ answers.map (shiftOutcome (a.utf8ByteSize + d.utf8Size))) := by
  obtain ⟨s, done, placed, outside, runs⟩ := reaches_end (Setting.inFront_apart (blank_stops blank) b)
    (tokensOf_ok.1 listed) (placed_start a) (.inl rfl) closed
  have nothing : s.segments = [] := outside ⟨0, ts, rfl, rfl, walks⟩
  have bytes : s.reader.bytes = a.utf8ByteSize := by
    have kept := runs.bytes
    simp only [Setting.scanner, Setting.reader, Reader.bytes, byteLength_append, ofSource, Reader.ofSource,
      byteLength_toList] at kept ⊢
    omega
  rw [inFront_start whole, inFront_unmoved] at runs
  refine runs.lists ((others.behind (placed_start b) _).congr (next_joined blank done ?_ bytes) ?_)
  · exact modes_outside placed nothing done
  · simp [Setting.scanner, nothing, Setting.inFront, Setting.behind, ofSource]

-- An error of the first source comes up as it does on its own.
theorem lists_faulty {a b joined : String} {d : Char} {ts : List Token} {e : Located LexicalError} (stops : Stops d)
    (whole : joined.toList = a.toList ++ d :: b.toList) (failed : Lists (ofSource a) (ts.map .ok ++ [.error e])) :
    Lists (ofSource joined) (ts.map .ok ++ [.error e]) := by
  have apart := Setting.inFront_apart stops b
  obtain ⟨us, s, rest, reaches⟩ := failed.reaches apart (placed_start a) (.inl rfl)
  have listed := reaches.listed
  have runs := reaches.runs
  rw [inFront_start whole, inFront_unmoved] at runs
  cases reaches.stopped with
  | done done =>
    rw [reaches.lists.unique (.ended done.next), List.append_nil] at listed
    exact absurd listed.symm error_not_listed
  | unclosed unclosed =>
    obtain ⟨text, ending, ends, -⟩ := lists_unclosed reaches.placed unclosed
    rw [reaches.lists.unique ends] at listed
    exact absurd (by simpa using listed.symm) (@error_not_listed (us ++ [text, ending]) ts e)
  | @fault e' r stop =>
    rw [reaches.lists.unique (.fault stop)] at listed
    obtain ⟨same, last⟩ := List.append_inj' listed rfl
    cases ok_injective same
    cases last
    have more : ¬ s.reader.Done := fun done => by cases stop.symm.trans done.next
    have closed : ¬ s.reader.Unclosed := fun unclosed => by
      obtain ⟨text, ending, ends, -⟩ := lists_unclosed reaches.placed unclosed
      cases ends.unique (.fault stop)
    have step := next_setting apart closed more
    rw [stop] at step
    have unmoved : e.shift (Setting.inFront d b).bytes = e := by
      simp only [Located.shift, Span.shift, Setting.inFront, Nat.zero_add]
    exact runs.lists (unmoved ▸ .fault step)

end Scanner

end Frontend
