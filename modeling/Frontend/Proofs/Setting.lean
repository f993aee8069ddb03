import Frontend.Proofs.Scanning

-- Reading a part of a source is reading it in its setting.  A setting is what stands around the part.  If no
-- token can reach from the part into what follows it, then every token of the part is read in the setting as
-- well, moved by the bytes before the part.  Only a string that the end of the part has closed goes on in the
-- setting.

namespace Frontend

open Text

def Span.shift (k : Nat) (span : Span) : Span := ⟨k + span.lo, span.len⟩

def Token.shift (k : Nat) (t : Token) : Token := { t with span := t.span.shift k }

def Located.shift {α : Type} (k : Nat) (x : Located α) : Located α := { x with span := x.span.shift k }

-- No token in front of this character goes on with it.
structure Stops (d : Char) : Prop where
  word : isAlphanumeric d = false
  digit : d.isDigit = false
  point : d ≠ '.'
  pair : d ≠ '='

structure Setting where
  -- The bytes before the part, and the characters behind it.
  bytes : Nat
  after : List Char
  -- The strings and segments around the part, and the braces that are open in these segments.
  modes : List Mode
  segments : List Nat

structure Setting.Apart (c : Setting) : Prop where
  stops : ∀ d ∈ c.after.head?, Stops d
  code : ∀ outer, c.modes ≠ .text :: outer

variable {c : Setting} {r : Reader} {xs ys : List Char} {x : Char}

theorem Span.ofBounds_shift (k lo hi : Nat) : Span.ofBounds (k + lo) (k + hi) = (Span.ofBounds lo hi).shift k := by
  simp only [ofBounds, shift, Nat.add_sub_add_left]

theorem Token.ofChars_shift (k lo : Nat) (kind : TokenKind) (value : Option Value) (text : List Char) :
    Token.ofChars kind value (k + lo) text = (Token.ofChars kind value lo text).shift k := by
  simp only [ofChars, shift, Nat.add_assoc, Span.ofBounds_shift]

def shiftOutcome (k : Nat) : Except (Located LexicalError) Token → Except (Located LexicalError) Token
  | .ok t => .ok (t.shift k)
  | .error e => .error (e.shift k)

theorem integerToken_shift (k lo : Nat) (digits : List Char) :
    integerToken (k + lo) digits = shiftOutcome k (integerToken lo digits) := by
  unfold integerToken
  cases Value.integerOfDigits? (Double.digitsValue (clamped digits)) with
  | none => simp only [shiftOutcome, Located.shift, Nat.add_assoc, Span.ofBounds_shift]
  | some n => simp only [shiftOutcome, Token.ofChars_shift]

theorem takeWhile_stop {p : Char → Bool} (stop : ∀ d ∈ ys.head?, p d = false) (xs : List Char) :
    (xs ++ ys).takeWhile p = xs.takeWhile p := by
  induction xs with
  | nil =>
    cases ys with
    | nil => rfl
    | cons d ds => simp [stop d rfl]
  | cons x xs ih => simp only [List.cons_append, List.takeWhile_cons, ih]

theorem dropWhile_stop {p : Char → Bool} (stop : ∀ d ∈ ys.head?, p d = false) (xs : List Char) :
    (xs ++ ys).dropWhile p = xs.dropWhile p ++ ys := by
  induction xs with
  | nil =>
    cases ys with
    | nil => rfl
    | cons d ds => simp [stop d rfl]
  | cons x xs ih =>
    simp only [List.cons_append, List.dropWhile_cons, ih]
    split <;> rfl

theorem takeWhile_passed {p : Char → Bool} (front : xs.dropWhile p ≠ []) (ys : List Char) :
    (xs ++ ys).takeWhile p = xs.takeWhile p := by
  induction xs with
  | nil => contradiction
  | cons x xs ih =>
    rw [List.dropWhile_cons] at front
    rw [List.cons_append, List.takeWhile_cons, List.takeWhile_cons]
    split
    · next passed => rw [ih (by simpa [passed] using front)]
    · rfl

theorem splitText_cons (noQuote : x ≠ '"') (noSegment : x = '$' → xs.head? ≠ some '{') :
    splitText (x :: xs) = (x :: (splitText xs).1, (splitText xs).2) := by
  rw [splitText]
  · exact noQuote
  · rintro rest dollar rfl
    exact noSegment dollar rfl

theorem splitText_append (xs ys : List Char) :
    match splitText xs with
    | (_, .endOfInput) => True
    | (text, .quote rest) => splitText (xs ++ ys) = (text, .quote (rest ++ ys))
    | (text, .segment rest) => splitText (xs ++ ys) = (text, .segment (rest ++ ys)) := by
  fun_induction splitText xs with
  | case1 => trivial
  | case2 cs => rfl
  | case3 cs => rfl
  | case4 x cs noQuote noSegment text stop found ih =>
    rw [found] at ih
    cases cs with
    | nil => cases found; trivial
    | cons y cs =>
      have apart : splitText (x :: (y :: cs) ++ ys) =
          (x :: (splitText ((y :: cs) ++ ys)).1, (splitText ((y :: cs) ++ ys)).2) :=
        splitText_cons noQuote fun dollar brace => noSegment cs dollar (by cases brace; rfl)
      cases stop with
      | endOfInput => trivial
      | quote rest | segment rest => simp only [apart, ih]

theorem ofPair_stops {d : Char} (stops : Stops d) (x : Char) : TokenKind.ofPair? x d = none := by
  have := stops.point
  have := stops.pair
  unfold TokenKind.ofPair?
  split <;> first | contradiction | rfl

theorem symbol_stop (stop : ∀ d ∈ ys.head?, Stops d) (x : Char) (xs : List Char) :
    symbol? x (xs ++ ys) =
      (symbol? x xs).map fun (kind, text, rest) => (kind, text, rest ++ ys) := by
  cases xs with
  | nil =>
    cases ys with
    | nil => cases found : symbol? x [] <;> simp [found]
    | cons d ds =>
      simp only [List.nil_append, symbol?, ofPair_stops (stop d rfl)]
      cases TokenKind.ofSymbol? x <;> rfl
  | cons y ys' =>
    simp only [List.cons_append, symbol?]
    cases TokenKind.ofPair? x y with
    | none => cases TokenKind.ofSymbol? x <;> rfl
    | some kind => rfl

def Numeral.followedBy (ys : List Char) : Numeral → Numeral
  | .integer digits rest => .integer digits (rest ++ ys)
  | .double whole fraction rest => .double whole fraction (rest ++ ys)
  | .range digits rest => .range digits (rest ++ ys)

theorem Numeral.ofChars_stop (stop : ∀ d ∈ ys.head?, Stops d) (x : Char) (xs : List Char) :
    Numeral.ofChars x (xs ++ ys) = (Numeral.ofChars x xs).followedBy ys := by
  have digit : ∀ d ∈ ys.head?, Char.isDigit d = false := fun d first => (stop d first).digit
  unfold Numeral.ofChars
  rw [takeWhile_stop digit, dropWhile_stop digit]
  dsimp only
  rcases xs.dropWhile Char.isDigit with _ | ⟨y, _ | ⟨z, zs⟩⟩
  · cases ys with
    | nil => rfl
    | cons d ds =>
      have noPoint := (stop d rfl).point
      simp [followedBy, noPoint]
  · by_cases point : y = '.'
    · cases ys with
      | nil => simp [followedBy, point]
      | cons d ds =>
        have noPoint := (stop d rfl).point
        simp [followedBy, point, digit d rfl]
    · simp [followedBy, point]
  · by_cases point : y = '.'
    · by_cases points : z = '.'
      · simp [followedBy, point, points]
      · by_cases fraction : z.isDigit
        · simp [followedBy, point, fraction, takeWhile_stop digit, dropWhile_stop digit]
        · simp [followedBy, point, fraction]
    · simp [followedBy, point]

namespace Setting

def reader (c : Setting) (r : Reader) : Reader :=
  ⟨r.rest ++ c.after, c.bytes + r.offset, r.modes ++ c.modes, r.deferred.map (Token.shift c.bytes)⟩

def step (c : Setting) : Reader.Step (Option Token) → Reader.Step (Option Token)
  | .ok t r => .ok (t.map (Token.shift c.bytes)) (c.reader r)
  | .error e r => .error (e.shift c.bytes) (c.reader r)

theorem reader_moveTo (c : Setting) (r : Reader) (count : Nat) (rest : List Char) :
    (c.reader r).moveTo count (rest ++ c.after) = c.reader (r.moveTo count rest) := by
  simp only [Reader.moveTo, reader, Nat.add_assoc]

end Setting

namespace Reader

theorem readRange_setting (apart : c.Apart) (digits rest : List Char) :
    (c.reader r).readRange digits (rest ++ c.after) = c.step (r.readRange digits rest) := by
  have stop : ∀ d ∈ c.after.head?, Char.isDigit d = false := fun d first => (apart.stops d first).digit
  have left := integerToken_shift c.bytes r.offset digits
  have right (count : Nat) (bound : List Char) : integerToken (c.bytes + r.offset + count + 2) bound =
      shiftOutcome c.bytes (integerToken (r.offset + count + 2) bound) := by
    rw [← integerToken_shift]
    simp only [Nat.add_assoc]
  have points (count : Nat) : Token.ofChars .dotDot none (c.bytes + r.offset + count) ['.', '.'] =
      (Token.ofChars .dotDot none (r.offset + count) ['.', '.']).shift c.bytes := by
    rw [← Token.ofChars_shift]
    simp only [Nat.add_assoc]
  unfold readRange
  simp only [Setting.reader, left, takeWhile_stop stop, dropWhile_stop stop, right, points]
  cases integerToken r.offset digits with
  | error e =>
    simp only [shiftOutcome, Setting.step, Setting.reader, moveTo, List.cons_append, Nat.add_assoc]
  | ok t =>
    simp only [shiftOutcome]
    split
    · simp only [Setting.step, Setting.reader, moveTo, Option.map_some, List.map_cons, List.map_nil,
        Nat.add_assoc]
    · cases integerToken (r.offset + byteLength digits + 2) (rest.takeWhile Char.isDigit) <;>
        simp only [Setting.step, Setting.reader, moveTo, Option.map_some, List.map_cons, List.map_nil,
          Nat.add_assoc]

theorem readToken_setting (apart : c.Apart) (x : Char) (xs : List Char) :
    (c.reader r).readToken x (xs ++ c.after) = c.step (r.readToken x xs) := by
  have word : ∀ d ∈ c.after.head?, isAlphanumeric d = false := fun d first => (apart.stops d first).word
  unfold readToken
  rw [symbol_stop apart.stops, Numeral.ofChars_stop apart.stops, takeWhile_stop word, dropWhile_stop word]
  cases symbol? x xs with
  | some found =>
    obtain ⟨kind, text, rest⟩ := found
    simp only [Option.map_some, Setting.step, ← Token.ofChars_shift, c.reader_moveTo]
    rfl
  | none =>
    simp only [Option.map_none]
    split
    · simp only [Setting.step, Setting.reader, moveTo, Option.map_some, ← Token.ofChars_shift,
        List.cons_append, Nat.add_assoc]
    · split
      · simp only [Setting.step, Option.map_some, ← Token.ofChars_shift, c.reader_moveTo]
        rfl
      · split
        · cases Numeral.ofChars x xs with
          | range digits rest => exact readRange_setting apart digits rest
          | double whole fraction rest =>
            simp only [Numeral.followedBy, Setting.step, Option.map_some, ← Token.ofChars_shift,
              c.reader_moveTo]
            rfl
          | integer digits rest =>
            have shifted : integerToken (c.reader r).offset digits = _ :=
              integerToken_shift c.bytes r.offset digits
            simp only [Numeral.followedBy, shifted, c.reader_moveTo]
            cases integerToken r.offset digits <;> rfl
        · have place : Span.ofBounds (c.reader r).offset ((c.reader r).offset + x.utf8Size) =
              (Span.ofBounds r.offset (r.offset + x.utf8Size)).shift c.bytes := by
            simp only [Setting.reader, Nat.add_assoc, Span.ofBounds_shift]
          rw [place, c.reader_moveTo]
          rfl

theorem skipBlanks_setting (c : Setting) (front : r.rest.dropWhile isBlank ≠ []) :
    (c.reader r).skipBlanks = c.reader r.skipBlanks := by
  have blanks : (r.rest ++ c.after).takeWhile isBlank = r.rest.takeWhile isBlank :=
    takeWhile_passed front c.after
  have others : (r.rest ++ c.after).dropWhile isBlank = r.rest.dropWhile isBlank ++ c.after := by
    rw [List.dropWhile_append, if_neg (by simpa using front)]
  unfold skipBlanks
  rw [← c.reader_moveTo]
  simp only [Setting.reader, blanks, others]

-- Where nothing but blanks are left of the part, what comes next is what comes behind it.
theorem skipBlanks_passed (c : Setting) (blank : r.rest.dropWhile isBlank = []) :
    (c.reader r).skipBlanks = (c.reader r.skipBlanks).skipBlanks := by
  have all : r.rest.takeWhile isBlank = r.rest := by
    have whole := List.takeWhile_append_dropWhile (p := isBlank) (l := r.rest)
    rwa [blank, List.append_nil] at whole
  have blanks : (r.rest ++ c.after).takeWhile isBlank = r.rest ++ c.after.takeWhile isBlank := by
    rw [← all]
    exact List.takeWhile_append_of_pos (List.all_eq_true.1 List.all_takeWhile)
  have others : (r.rest ++ c.after).dropWhile isBlank = c.after.dropWhile isBlank := by
    rw [List.dropWhile_append, blank]
    rfl
  simp only [skipBlanks, Setting.reader, moveTo, blanks, others, all, blank, List.nil_append,
    byteLength_append, Nat.add_assoc]

-- The text in front of the reader goes on to the end of the input.
structure Unclosed (r : Reader) : Prop where
  idle : r.deferred = []
  text : ∃ outer, r.modes = .text :: outer
  ends : (splitText r.rest).2 = .endOfInput

-- Nothing but blanks are left.
structure Done (r : Reader) : Prop where
  idle : r.deferred = []
  code : ∀ outer, r.modes ≠ .text :: outer
  blank : r.rest.dropWhile isBlank = []

theorem next_blank {d : Char} (blank : isBlank d = true) (ds : List Char) (lo : Nat) :
    next ⟨d :: ds, lo, [], []⟩ = next ⟨ds, lo + d.utf8Size, [], []⟩ := by
  have skipped : skipBlanks ⟨d :: ds, lo, [], []⟩ = skipBlanks ⟨ds, lo + d.utf8Size, [], []⟩ := by
    simp [skipBlanks, moveTo, blank, Nat.add_assoc]
  have code (outer : List Mode) : [] ≠ Mode.text :: outer := (List.cons_ne_nil _ _).symm
  rw [next_code rfl code, next_code rfl code, skipped]

theorem readText_setting (c : Setting) (outer : List Mode) (closed : (splitText r.rest).2 ≠ .endOfInput) :
    (c.reader r).readText (outer ++ c.modes) = c.step (r.readText outer) := by
  have split := splitText_append r.rest c.after
  unfold readText
  rcases found : splitText r.rest with ⟨text, _ | rest | rest⟩ <;> rw [found] at split closed
  · exact absurd rfl closed
  · have split : splitText (r.rest ++ c.after) = (text, .quote (rest ++ c.after)) := split
    simp only [Setting.step, Setting.reader, split, Option.map_some, ← Token.ofChars_shift, Nat.add_assoc,
      List.map_cons, List.map_nil]
  · have split : splitText (r.rest ++ c.after) = (text, .segment (rest ++ c.after)) := split
    simp only [Setting.step, Setting.reader, split, Option.map_some, ← Token.ofChars_shift, Nat.add_assoc,
      List.cons_append, List.map_nil]

theorem Done.next (done : r.Done) : r.next = .ok none r.skipBlanks := by
  have empty : r.skipBlanks.rest = [] := done.blank
  rw [next_code done.idle done.code, empty]

theorem code_setting (apart : c.Apart) (code : ∀ outer, r.modes ≠ .text :: outer) (outer : List Mode) :
    (c.reader r).modes ≠ .text :: outer := by
  intro same
  have same : r.modes ++ c.modes = .text :: outer := same
  cases modes : r.modes with
  | nil => rw [modes] at same; exact apart.code outer same
  | cons mode rest =>
    rw [modes] at same
    cases same
    exact code rest modes

theorem Done.next_setting (apart : c.Apart) (done : r.Done) :
    (c.reader r).next = (c.reader r.skipBlanks).next := by
  have idle {r : Reader} (idle : r.deferred = []) : (c.reader r).deferred = [] :=
    congrArg (List.map _) idle
  rw [next_code (idle done.idle) (code_setting apart done.code),
    next_code (idle (r := r.skipBlanks) done.idle) (code_setting apart done.code),
    skipBlanks_passed c done.blank]

-- What is read of the part is read in the setting, moved.
theorem next_setting (apart : c.Apart) (closed : ¬ r.Unclosed) (more : ¬ r.Done) :
    (c.reader r).next = c.step r.next := by
  obtain ⟨rest, offset, modes, deferred⟩ := r
  cases deferred with
  | cons t queue => rfl
  | nil =>
    by_cases inside : ∃ outer, modes = .text :: outer
    · have ends : (splitText rest).2 ≠ .endOfInput := fun ends => closed ⟨rfl, inside, ends⟩
      obtain ⟨outer, rfl⟩ := inside
      exact readText_setting (r := ⟨rest, offset, .text :: outer, []⟩) c outer ends
    · have code : ∀ outer, modes ≠ .text :: outer := fun outer same => inside ⟨outer, same⟩
      have front : rest.dropWhile isBlank ≠ [] := fun blank => more ⟨rfl, code, blank⟩
      have idle : (c.reader ⟨rest, offset, modes, []⟩).deferred = [] := rfl
      rw [next_code (r := ⟨rest, offset, modes, []⟩) rfl code, next_code idle (code_setting apart code),
        skipBlanks_setting c front]
      cases found : rest.dropWhile isBlank with
      | nil => exact absurd found front
      | cons x xs =>
        have left : (skipBlanks ⟨rest, offset, modes, []⟩).rest = x :: xs := found
        have left' : (c.reader (skipBlanks ⟨rest, offset, modes, []⟩)).rest = x :: (xs ++ c.after) :=
          congrArg (· ++ c.after) left
        rw [left, left']
        exact readToken_setting apart x xs

theorem next_none {r' : Reader} (ended : r.next = .ok none r') : r.Done ∧ r' = r.skipBlanks := by
  obtain ⟨rest, offset, modes, deferred⟩ := r
  cases deferred with
  | cons t queue => cases ended
  | nil =>
    have code : ∀ outer, modes ≠ .text :: outer := by
      rintro outer rfl
      exact readText_some (r := ⟨rest, offset, .text :: outer, []⟩) ended rfl
    rw [next_code rfl code] at ended
    cases found : rest.dropWhile isBlank with
    | nil =>
      have left : (skipBlanks ⟨rest, offset, modes, []⟩).rest = [] := found
      rw [left] at ended
      cases ended
      exact ⟨⟨rfl, code, found⟩, rfl⟩
    | cons x xs =>
      have left : (skipBlanks ⟨rest, offset, modes, []⟩).rest = x :: xs := found
      rw [left] at ended
      exact absurd rfl (readToken_some ended)

end Reader

end Frontend
