import Frontend.Proofs.Continuations
import Mathlib.Data.List.TakeWhile

-- The first place that is no token.  Listing stops at an error where no token starts, or where an integer is
-- too great.  All that is in front of this place is listed without an error.

namespace Frontend

open Reader Scanner Text

-- At byte `lo` no token starts, or an integer that is too great.
inductive Offends (lo : Nat) : List Char → Located LexicalError → Prop where
  | char {c : Char} (cs : List Char) : TokenKind.ofSymbol? c = none → c ≠ '"' → isAlphabetic c = false →
      c.isDigit = false → Offends lo (c :: cs) ⟨Span.ofBounds lo (lo + c.utf8Size), .unexpectedChar c⟩
  | number {digits rest : List Char} {e : Located LexicalError} : Digits digits →
      (∀ c ∈ rest.head?, c.isDigit = false) → integerToken lo digits = .error e → Offends lo (digits ++ rest) e

variable {source : String} {r r' : Reader} {s : Scanner} {e : Located LexicalError} {t : Token} {c : Char}
  {cs blanks digits rest front back : List Char} {lo : Nat}

theorem integerToken_fault (fails : integerToken lo digits = .error e) :
    e = ⟨Span.ofBounds lo (lo + byteLength digits), .malformedNumber (.ofList (clamped digits))⟩ ∧
      9223372036854775807 < Double.digitsValue (clamped digits) := by
  obtain ⟨great, rfl⟩ := integerToken_eq_error.1 fails
  exact ⟨rfl, by simpa [Value.integerOfDigits?] using great⟩

-- What comes first at the place is no point, so that other characters can follow what is in front of it.
theorem Offends.first (offends : Offends lo cs e) : ∃ c rest, cs = c :: rest ∧ c ≠ '.' := by
  cases offends with
  | char cs noSymbol =>
    refine ⟨_, cs, rfl, ?_⟩
    rintro rfl
    cases noSymbol
  | number run =>
    obtain ⟨d, ds, rfl⟩ := List.exists_cons_of_ne_nil run.any
    refine ⟨d, _, rfl, ?_⟩
    rintro rfl
    cases run.all _ List.mem_cons_self

-- The integer that is too great is the right bound of a range whose left bound is not.
inductive AtBound (lo : Nat) : List Char → Located LexicalError → Prop where
  | bound {left right rest : List Char} {t : Token} {e : Located LexicalError} : Digits left →
      integerToken lo left = .ok t → Digits right → (∀ c ∈ rest.head?, c.isDigit = false) →
      integerToken (lo + byteLength left + 2) right = .error e → AtBound lo (left ++ '.' :: '.' :: (right ++ rest)) e

theorem readRange_offends (run : Digits digits) (failed : r.readRange digits rest = .error e r') :
    Offends r.offset (digits ++ '.' :: '.' :: rest) e ∨ AtBound r.offset (digits ++ '.' :: '.' :: rest) e := by
  have outcome := r.readRange_outcome digits rest
  rw [failed] at outcome
  cases outcome with
  | leftGreat fails => exact .inl (.number run (points_noDigit _) fails)
  | rightGreat fits bound fails =>
    have right : Digits (rest.takeWhile Char.isDigit) := ⟨bound, List.all_eq_true.1 List.all_takeWhile⟩
    have offends := AtBound.bound run fits right (dropWhile_head _ rest) fails
    rw [List.takeWhile_append_dropWhile] at offends
    exact .inr offends

theorem readToken_offends (failed : r.readToken c cs = .error e r') :
    Offends r.offset (c :: cs) e ∨ AtBound r.offset (c :: cs) e := by
  have outcome := r.readToken_outcome c cs
  rw [failed] at outcome
  cases outcome with
  | range digit found failed =>
    have written := numeral_written digit cs
    rw [found] at written
    rw [← numeral_chars c cs, found]
    exact readRange_offends written failed
  | great digit found fails =>
    have written := numeral_written digit cs
    have stops := numeral_stops c cs
    rw [found] at written stops
    rw [← numeral_chars c cs, found]
    exact .inl (.number written (stops.resolve_left (by simp)) fails)
  | unexpected noSymbol noQuote noLetter noDigit =>
    exact .inl (.char cs (symbol_none.1 noSymbol) noQuote noLetter noDigit)

theorem Offends.unexpected {d : Char} (offends : Offends lo (c :: cs) e) (kind : e.value = .unexpectedChar d) :
    d = c ∧ e = ⟨Span.ofBounds lo (lo + c.utf8Size), .unexpectedChar c⟩ ∧ TokenKind.ofSymbol? c = none ∧ c ≠ '"' ∧
      isAlphabetic c = false ∧ c.isDigit = false := by
  generalize whole : c :: cs = back at offends
  cases offends with
  | char cs noSymbol noQuote noLetter noDigit =>
    cases whole
    cases kind
    exact ⟨rfl, rfl, noSymbol, noQuote, noLetter, noDigit⟩
  | number _ _ fails =>
    rw [(integerToken_fault fails).1] at kind
    cases kind

-- What follows a character that starts no token does not matter.
theorem readToken_unexpected {d : Char} (offends : Offends r.offset (c :: cs) e)
    (kind : e.value = .unexpectedChar d) (more : List Char) : ∃ r', r.readToken c more = .error e r' := by
  obtain ⟨-, rfl, noSymbol, noQuote, noLetter, noDigit⟩ := offends.unexpected kind
  refine ⟨r.moveTo (byteLength [c]) more, ?_⟩
  rw [readToken, symbol_none.2 noSymbol, if_neg noQuote, noLetter, noDigit]
  rfl

theorem next_failed (failed : r.next = .error e r') :
    r.deferred = [] ∧ (∀ outer, r.modes ≠ .text :: outer) ∧ ∃ c cs, r.rest.dropWhile isBlank = c :: cs ∧
      r.skipBlanks.readToken c cs = .error e r' := by
  have outcome := r.next_outcome
  rw [failed] at outcome
  cases outcome with
  | @text outer _ _ _ read =>
    have outcome := r.readText_outcome outer
    rw [read] at outcome
    cases outcome
  | token idle code front failed => exact ⟨idle, code, _, _, front, failed⟩

namespace Scanner

-- Where the reader fails, the characters in front of the error are listed, and the error comes up again whatever follows
-- a character that starts no token.
structure Fails (s : Scanner) (e : Located LexicalError) (front back : List Char) : Prop where
  whole : s.reader.rest = front ++ back
  parted : Parted front back
  offends : Offends (s.reader.offset + byteLength front) back e
  sound : ∃ ts : List Token, Lists (s.facing front) (ts.map .ok)
  again : ∀ c, e.value = .unexpectedChar c → ∀ more, Lists (s.facing (front ++ c :: more)) [.error e]

theorem lists_blank (idle : s.reader.deferred = []) (code : ∀ outer, s.reader.modes ≠ .text :: outer)
    (blank : ∀ c ∈ s.reader.rest, isBlank c = true) : Lists s [] :=
  .ended (Done.next ⟨idle, code, List.dropWhile_eq_nil_iff.2 blank⟩)

theorem readRange_ended (fits : integerToken r.offset digits = .ok t) :
    r.readRange digits [] = .ok (some t) { r.moveTo (byteLength digits + 2) [] with
      deferred := [.ofChars .dotDot none (r.offset + byteLength digits) ['.', '.']] } := by
  rw [readRange, fits]
  rfl

-- The left bound of a range and its points are listed where nothing follows.
theorem lists_bound (idle : s.reader.deferred = []) (code : ∀ outer, s.reader.modes ≠ .text :: outer)
    (blank : ∀ c ∈ blanks, isBlank c = true) (run : Digits digits)
    (fits : integerToken (s.reader.offset + byteLength blanks) digits = .ok t) :
    ∃ ts : List Token, Lists (s.facing (blanks ++ (digits ++ ['.', '.']))) (ts.map .ok) := by
  obtain ⟨c, ds, rfl⟩ := List.exists_cons_of_ne_nil run.any
  obtain ⟨digit, others⟩ := List.forall_mem_cons.1 run.all
  have numeral : Numeral.ofChars c (ds ++ ['.', '.']) = .range (c :: ds) [] := by
    obtain ⟨front, back⟩ := run_cut others (points_noDigit ['.'])
    rw [ofChars_run, front, back]
    rfl
  have read := next_past (r := s.reader.facing (blanks ++ (c :: (ds ++ ['.', '.'])))) idle code rfl blank
    (digit_apart digit).1
  rw [readToken_digit digit, numeral, numeralStep, readRange_ended fits] at read
  let points := Token.ofChars .dotDot none (s.reader.offset + byteLength blanks + byteLength (c :: ds)) ['.', '.']
  refine ⟨[t, points], .token read ?_⟩
  rw [behind_ordinary (by rw [integerToken_kind fits]; decide)]
  refine .token rfl ?_
  rw [behind_ordinary (by decide : Grammar.Ordinary .dotDot)]
  exact lists_blank rfl code (List.forall_mem_nil _)

theorem fails_of_next (failed : s.reader.next = .error e r') : ∃ front back, Fails s e front back := by
  obtain ⟨idle, code, c, cs, front, failed⟩ := next_failed failed
  let blanks := s.reader.rest.takeWhile isBlank
  have blank : ∀ c ∈ blanks, isBlank c = true := List.all_eq_true.1 List.all_takeWhile
  have whole : s.reader.rest = blanks ++ c :: cs := by
    rw [← front, List.takeWhile_append_dropWhile]
  have visible : isBlank c = false := by
    have visible := dropWhile_head isBlank s.reader.rest
    rw [front] at visible
    exact visible c rfl
  rcases readToken_offends failed with offends | atBound
  · refine ⟨blanks, c :: cs, whole, blanks_parted blank _, offends, ⟨[], lists_blank idle code blank⟩,
      fun d kind more => ?_⟩
    obtain ⟨rfl, -⟩ := offends.unexpected kind
    obtain ⟨r'', failed'⟩ :=
      readToken_unexpected (r := (s.reader.facing _).moveTo (byteLength blanks) _) offends kind more
    have past := next_past (r := s.reader.facing (blanks ++ d :: more)) idle code rfl blank visible
    exact .fault (past.trans failed')
  · generalize here : c :: cs = back at atBound
    cases atBound with
    | @bound left right rest t e run fits run' stop fails =>
      rw [here] at whole
      refine ⟨blanks ++ (left ++ ['.', '.']), right ++ rest, by simpa using whole, .inl (by simp), ?_,
        lists_bound idle code blank run fits, fun d kind => ?_⟩
      · have place : s.reader.offset + byteLength (blanks ++ (left ++ ['.', '.'])) =
            s.reader.skipBlanks.offset + byteLength left + 2 := by
          have points : byteLength ['.', '.'] = 2 := rfl
          simp only [skipBlanks, moveTo, byteLength_append, points, Nat.add_assoc, blanks]
        rw [place]
        exact .number run' stop fails
      · rw [(integerToken_fault fails).1] at kind
        cases kind

end Scanner

-- The digits at the front of `back` are all that stand there in a row, and too great a number.
structure GreatRun (source front digits back : String) (span : Span) : Prop where
  text : Occurs source digits span.lo span.hi
  run : Digits digits.toList
  before : ∀ c ∈ front.toList.getLast?, c.isDigit = false
  after : ∃ rest, back = digits ++ rest ∧ ∀ c ∈ rest.toList.head?, c.isDigit = false
  great : 9223372036854775807 < Double.digitsValue digits.toList

-- What stands at the error, with `front` before it and `back` from its first byte on.
inductive Blames (source front : String) : String → Located LexicalError → Prop where
  -- Every source that starts alike up to the character fails alike.
  | char {c : Char} {rest : String} {span : Span} : Occurs source (.singleton c) span.lo span.hi →
      (∀ more, tokensOf (front ++ .singleton c ++ more) = .error ⟨span, .unexpectedChar c⟩) →
      Blames source front (.singleton c ++ rest) ⟨span, .unexpectedChar c⟩
  -- In a longer source, the digits that are named can be fewer than stand there.
  | number {digits back : String} {span : Span} :
      (source.utf8ByteSize < UInt32.size → GreatRun source front digits back span) →
      Blames source front back ⟨span, .malformedNumber digits⟩

theorem facing_start (source : String) (cs : List Char) :
    (Scanner.ofSource source).facing cs = Scanner.ofSource (.ofList cs) := by
  rw [ofSource_ofList]
  rfl

-- From the place where the reader fails back to the start of the source.
theorem fails_start {ts : List Token} (runs : Runs (Scanner.ofSource source) ts s) (fails : Fails s e front back) :
    ∃ ahead, source.toList = ahead ++ back ∧ Parted ahead back ∧ Offends (byteLength ahead) back e ∧
      (∃ ts, tokensOf (.ofList ahead) = .ok ts) ∧
      ∀ c, e.value = .unexpectedChar c → ∀ more, tokensOf (.ofList (ahead ++ c :: more)) = .error e := by
  obtain ⟨before, whole, parted⟩ := runs.passes
  have whole : source.toList = before ++ s.reader.rest := whole
  have bytes : s.reader.offset + byteLength s.reader.rest = 0 + byteLength source.toList := runs.bytes
  rw [whole, byteLength_append, Nat.zero_add] at bytes
  have offset : s.reader.offset = byteLength before := by omega
  have offends := fails.offends
  rw [offset, ← byteLength_append] at offends
  obtain ⟨d, ds, rfl, noPoint⟩ := offends.first
  rw [fails.whole, ← List.append_assoc] at whole
  rw [fails.whole] at parted
  have other (more : List Char) (first : ∀ x ∈ more.head?, x = d) :
      Runs (Scanner.ofSource (.ofList (before ++ front ++ more))) ts (s.facing (front ++ more)) := by
    rw [← facing_start source]
    exact runs.other ⟨first, noPoint⟩ whole fails.whole
  refine ⟨before ++ front, whole, parted.append fails.parted, offends, ?_, fun c kind more => ?_⟩
  · obtain ⟨us, lists⟩ := fails.sound
    have runs' := other [] nofun
    rw [List.append_nil, List.append_nil] at runs'
    exact ⟨ts ++ us, tokensOf_ok.2 (runs'.lists_tokens lists)⟩
  · have same := (offends.unexpected kind).1
    have runs' := other (c :: more) (by simpa using same)
    exact tokensOf_error.2 ⟨ts, runs'.lists (fails.again c kind more)⟩

theorem ofList_cons (c : Char) (cs : List Char) : String.ofList (c :: cs) = .singleton c ++ .ofList cs := by
  rw [← List.singleton_append, String.ofList_append]
  rfl

theorem Offends.blames {ahead : List Char} (offends : Offends (byteLength ahead) back e)
    (whole : source.toList = ahead ++ back) (parted : Parted ahead back)
    (again : ∀ c, e.value = .unexpectedChar c → ∀ more, tokensOf (.ofList (ahead ++ c :: more)) = .error e) :
    e.span.lo = byteLength ahead ∧ Blames source (.ofList ahead) (.ofList back) e := by
  cases offends with
  | @char c cs =>
    refine ⟨rfl, ?_⟩
    have whole : source.toList = ahead ++ [c] ++ cs := by simpa using whole
    have occurs := occurs_of_chars whole
    have short : c.utf8Size ≤ Span.maxLen := Nat.le_trans c.utf8Size_le_four (by decide)
    rw [ofList_cons]
    refine .char ?_ fun more => ?_
    · rw [Span.lo_ofBounds, Span.hi_ofBounds _ _ (Nat.le_add_right _ _) (by omega)]
      simpa using occurs
    · rw [← again c rfl more.toList, String.ofList_append, ofList_cons, String.ofList_toList, String.append_assoc]
  | @number digits rest e run stop fails =>
    obtain ⟨rfl, great⟩ := integerToken_fault fails
    refine ⟨rfl, .number fun short => ?_⟩
    have short' : byteLength digits ≤ Span.maxLen := by
      rw [← byteLength_toList, whole, byteLength_append, byteLength_append] at short
      have room : byteLength ahead + (byteLength digits + byteLength rest) ≤ Span.maxLen := Nat.le_of_lt_succ short
      omega
    rw [clamped_eq short'] at great ⊢
    have whole : source.toList = ahead ++ digits ++ rest := by simpa using whole
    refine ⟨?_, ?_, ?_, ⟨.ofList rest, String.ofList_append, ?_⟩, ?_⟩
    · rw [Span.lo_ofBounds, Span.hi_ofBounds _ _ (Nat.le_add_right _ _) (by omega)]
      exact occurs_of_chars whole
    · rwa [String.toList_ofList]
    · rw [String.toList_ofList]
      refine parted.resolve_right fun noDigit => ?_
      obtain ⟨d, ds, rfl⟩ := List.exists_cons_of_ne_nil run.any
      have digit := run.all d List.mem_cons_self
      rw [noDigit d rfl] at digit
      cases digit
    · rwa [String.toList_ofList]
    · rwa [String.toList_ofList]

-- All that is in front of the error is listed.  At the error there is a character that starts no token, whatever
-- follows it, or, in a source that no span is too short for, the whole of a run of digits that is too great a number.
theorem tokensOf_first_fault (failed : tokensOf source = .error e) :
    ∃ front back, source = front ++ back ∧ front.utf8ByteSize = e.span.lo ∧ (∃ ts, tokensOf front = .ok ts) ∧
      Blames source front back e := by
  obtain ⟨ts, lists⟩ := tokensOf_error.1 failed
  obtain ⟨s, runs, last⟩ := lists.runs
  cases last with
  | fault failed =>
    obtain ⟨front, back, fails⟩ := fails_of_next failed
    obtain ⟨ahead, whole, parted, offends, sound, again⟩ := fails_start runs fails
    obtain ⟨place, blames⟩ := offends.blames whole parted again
    have split : source = .ofList ahead ++ .ofList back := by
      rw [← String.ofList_append, ← whole, String.ofList_toList]
    exact ⟨.ofList ahead, .ofList back, split, by rw [place, byteLength_ofList], sound, blames⟩

-- In a segment, the right bound of a range is too great, and behind a point a character of two bytes starts no token.
theorem great_bound_first_fault :
    let source := "\"$\x7b1..99999999999999999999\x7d"
    let great : Located LexicalError := ⟨Span.ofBounds 6 26, .malformedNumber "99999999999999999999"⟩
    let unknown : Located LexicalError := ⟨Span.ofBounds 2 4, .unexpectedChar '§'⟩
    (source.utf8ByteSize < UInt32.size ∧ tokensOf source = .error great ∧ ∃ front back, source = front ++ back ∧
        front.utf8ByteSize = 6 ∧ (∃ ts, tokensOf front = .ok ts) ∧ Blames source front back great) ∧
      tokensOf "1.§.5" = .error unknown ∧ ∃ front back, "1.§.5" = front ++ back ∧ front.utf8ByteSize = 2 ∧
        (∃ ts, tokensOf front = .ok ts) ∧ Blames "1.§.5" front back unknown := by
  intro source great unknown
  have short : source.utf8ByteSize < UInt32.size := by decide +kernel
  have first : tokensOf source = .error great := by decide +kernel
  have second : tokensOf "1.§.5" = .error unknown := by decide +kernel
  exact ⟨⟨short, first, tokensOf_first_fault first⟩, second, tokensOf_first_fault second⟩

theorem nines_worth (count : Nat) : Double.digitsValue (List.replicate count '9') + 1 = Nat.pow 10 count := by
  induction count with
  | zero => rfl
  | succ count ih =>
    have step : Double.digitsValue (List.replicate (count + 1) '9') =
        10 * Double.digitsValue (List.replicate count '9') + 9 := by
      rw [List.replicate_succ', Double.digitsValue, List.foldl_append]
      rfl
    rw [step, Nat.pow_eq, Nat.pow_succ]
    rw [Nat.pow_eq] at ih
    omega

theorem nines_great {count : Nat} (long : 19 ≤ count) :
    Value.integerOfDigits? (Double.digitsValue (List.replicate count '9')) = none := by
  have worth := nines_worth count
  have great : 10000000000000000000 ≤ Nat.pow 10 count := Nat.pow_le_pow_right (n := 10) (by decide) long
  rw [Value.integerOfDigits?, if_neg (by omega)]

theorem long_number_refused {count room : Nat} (long : 19 ≤ count)
    (cut : clamped (List.replicate count '9') = List.replicate room '9') (great : 19 ≤ room) :
    tokensOf (.ofList (List.replicate count '9')) =
      .error ⟨Span.ofBounds 0 (0 + count), .malformedNumber (.ofList (List.replicate room '9'))⟩ := by
  have fails : integerToken 0 (List.replicate count '9') =
      .error ⟨Span.ofBounds 0 (0 + count), .malformedNumber (.ofList (List.replicate room '9'))⟩ := by
    refine integerToken_eq_error.2 ⟨?_, ?_⟩
    · rw [cut, nines_great great]
    · rw [cut, byteLength_run rfl]
  have any : count ≠ 0 := by omega
  have stop : ∀ c ∈ ([] : List Char).head?, c.isDigit = false := nofun
  have read := next_run (run_digits (c := '9') (by decide) any) stop
  have numeral : Numeral.ofRun (List.replicate count '9') [] = .integer (List.replicate count '9') [] := rfl
  rw [List.append_nil, numeral, numeralStep, fails] at read
  refine tokensOf_error.2 ⟨[], ?_⟩
  rw [ofSource_ofList]
  exact .fault read

-- The digits of a longer source can be cut.  Of as many nines as a span cannot reach over, the last one is not named.
theorem cut_number_goes_on :
    let source := String.ofList (List.replicate UInt32.size '9')
    let span : Span := ⟨0, 4294967295⟩
    ∃ digits, tokensOf source = .error ⟨span, .malformedNumber digits⟩ ∧ Occurs source digits span.lo span.hi ∧
      source = digits ++ "9" := by
  have cut : clamped (List.replicate UInt32.size '9') = List.replicate Span.maxLen '9' := by
    rw [← List.append_nil (List.replicate UInt32.size '9')]
    exact fitting_run rfl (Nat.le_succ _) _
  have split : String.ofList (List.replicate UInt32.size '9') = .ofList (List.replicate Span.maxLen '9') ++ "9" := by
    rw [← String.ofList_toList (s := "9"), ← String.ofList_append]
    exact congrArg String.ofList List.replicate_succ'
  refine ⟨.ofList (List.replicate Span.maxLen '9'), long_number_refused (by decide) cut (by decide), ?_, split⟩
  refine ⟨"", "9", ?_, rfl, ?_⟩
  · rw [split, String.empty_append]
  · rw [String.empty_append, byteLength_ofList, byteLength_run rfl]
    rfl

end Frontend
