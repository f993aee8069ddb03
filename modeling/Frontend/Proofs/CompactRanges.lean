import Frontend.Proofs.Lines

-- Ranges with and without blanks around their points.  Without blanks the right bound is read along with the
-- left one, and only as digits.  So a range reads the same either way, unless a bound with decimal places ends
-- it: its point is then a token of its own.

namespace Frontend

open Reader Scanner Grammar Text

abbrev Content := TokenKind × String × Option Value

def Token.content (t : Token) : Content := (t.kind, t.text, t.value)

abbrev Contents := Except LexicalError (List Content)

def contentsOf (source : String) : Contents :=
  match tokensOf source with
  | .ok ts => .ok (ts.map Token.content)
  | .error e => .error e.value

-- One token, and the others behind it.
def withFirst (first : Except LexicalError Content) (others : Contents) : Contents := do
  return (← first) :: (← others)

def withTokens (ts : List Token) (others : Contents) : Contents :=
  ts.foldr (fun t others => withFirst (.ok t.content) others) others

def told : List Answer → Contents
  | [] => .ok []
  | .ok t :: rest => withFirst (.ok t.content) (told rest)
  | .error e :: _ => .error e.value

variable {source : String} {answers : List Answer} {first : Except LexicalError Content} {others : Contents}
  {items : List Content} {t : Token} {queue : List Token} {r : Reader} {e : Located LexicalError} {c : Char}
  {cs rest digits : List Char} {offset : Nat}

theorem withFirst_ok : withFirst first others = .ok items ↔
    ∃ content later, first = .ok content ∧ others = .ok later ∧ items = content :: later := by
  cases first <;> cases others <;> simp [withFirst, Bind.bind, Except.bind, Pure.pure, Except.pure, eq_comm]

theorem told_append (ts : List Token) (answers : List Answer) :
    told (ts.map .ok ++ answers) = withTokens ts (told answers) := by
  induction ts with
  | nil => rfl
  | cons t ts ih =>
    rw [List.map_cons, List.cons_append, told, ih]
    rfl

theorem withTokens_ok (ts : List Token) : withTokens ts (.ok []) = .ok (ts.map Token.content) := by
  induction ts with
  | nil => rfl
  | cons t ts ih => exact withFirst_ok.2 ⟨_, _, rfl, ih, rfl⟩

theorem withTokens_error (ts : List Token) (e : LexicalError) : withTokens ts (.error e) = .error e := by
  induction ts with
  | nil => rfl
  | cons t ts ih =>
    rw [withTokens, List.foldr_cons, ← withTokens, ih]
    rfl

theorem told_shift (k : Nat) (answers : List Answer) : told (answers.map (shiftOutcome k)) = told answers := by
  fun_induction told answers with
  | case1 => rfl
  | case2 t rest ih => rw [List.map_cons, shiftOutcome, told, ih]; rfl
  | case3 e rest => rfl

theorem Scanner.Lists.contents (lists : Lists (Scanner.ofSource source) answers) :
    contentsOf source = told answers := by
  unfold contentsOf
  cases listed : tokensOf source with
  | ok ts =>
    have tokens := told_append ts []
    rw [List.append_nil] at tokens
    rw [lists.unique (tokensOf_ok.1 listed), tokens, told, withTokens_ok]
  | error e =>
    obtain ⟨ts, failed⟩ := tokensOf_error.1 listed
    rw [lists.unique failed, told_append, told, withTokens_error]

def contentsOfChars (cs : List Char) : Contents := contentsOf (.ofList cs)

theorem ofSource_ofList (cs : List Char) : Scanner.ofSource (.ofList cs) = ⟨⟨cs, 0, [], []⟩, []⟩ := by
  rw [Scanner.ofSource, Reader.ofSource, String.toList_ofList]

-- The same is listed wherever the characters stand.
theorem lists_from (cs : List Char) (offset : Nat) :
    ∃ answers, contentsOfChars cs = told answers ∧ Lists ⟨⟨cs, offset, [], []⟩, []⟩ answers := by
  obtain ⟨answers, lists⟩ := exists_lists (.ofList cs)
  have moved := lists.behind (placed_start _) offset
  rw [ofSource_ofList] at moved
  refine ⟨answers.map (shiftOutcome offset), ?_, ?_⟩
  · rw [contentsOfChars, lists.contents, ← told_shift offset]
  · simpa [Setting.scanner, Setting.reader, Setting.behind] using moved

theorem lists_queue (ordinary : ∀ t ∈ queue, Ordinary t.kind) (lists : Lists ⟨⟨cs, offset, [], []⟩, []⟩ answers) :
    Lists ⟨⟨cs, offset, [], queue⟩, []⟩ (queue.map .ok ++ answers) := by
  induction queue with
  | nil => exact lists
  | cons t queue ih =>
    obtain ⟨first, others⟩ := List.forall_mem_cons.1 ordinary
    refine .token (r := ⟨cs, offset, [], queue⟩) rfl ?_
    rw [behind_ordinary first]
    exact ih others

theorem contents_front (read : next ⟨cs, 0, [], []⟩ = .ok (some t) ⟨rest, offset, [], queue⟩)
    (ordinary : ∀ u ∈ t :: queue, Ordinary u.kind) :
    contentsOfChars cs = withTokens (t :: queue) (contentsOfChars rest) := by
  obtain ⟨answers, same, lists⟩ := lists_from rest offset
  obtain ⟨first, others⟩ := List.forall_mem_cons.1 ordinary
  have whole : Lists (Scanner.ofSource (.ofList cs)) ((t :: queue).map .ok ++ answers) := by
    rw [ofSource_ofList]
    refine .token read ?_
    rw [behind_ordinary first]
    exact lists_queue others lists
  rw [contentsOfChars, whole.contents, told_append, ← same]

theorem contents_fault (failed : next ⟨cs, 0, [], []⟩ = .error e r) : contentsOfChars cs = .error e.value := by
  have whole : Lists (Scanner.ofSource (.ofList cs)) [.error e] := by
    rw [ofSource_ofList]
    exact .fault failed
  rw [contentsOfChars, whole.contents]
  rfl

theorem contents_blank (blank : isBlank c = true) (cs : List Char) :
    contentsOfChars (c :: cs) = contentsOfChars cs := by
  obtain ⟨answers, same, lists⟩ := lists_from cs (0 + c.utf8Size)
  have whole : Lists (Scanner.ofSource (.ofList (c :: cs))) answers := by
    rw [ofSource_ofList]
    exact lists.congr (next_blank blank cs 0) rfl
  rw [contentsOfChars, whole.contents, same]

def pointsContent : Content := (.dotDot, "..", none)

theorem contents_points (cs : List Char) :
    contentsOfChars ('.' :: '.' :: cs) = withFirst (.ok pointsContent) (contentsOfChars cs) := by
  have read : next ⟨'.' :: '.' :: cs, 0, [], []⟩ =
      .ok (some (.ofChars .dotDot none 0 ['.', '.'])) ⟨cs, 2, [], []⟩ := rfl
  exact contents_front read (List.forall_mem_singleton.2 (by decide : Ordinary .dotDot))

theorem digit_cases (digit : c.isDigit = true) : c ∈ "0123456789".toList := by
  have range : 48 ≤ c.toNat ∧ c.toNat ≤ 57 := by
    simpa [Char.isDigit, UInt32.le_iff_toNat_le] using digit
  have listed : ∀ n < 58, 48 ≤ n → Char.ofNat n ∈ "0123456789".toList := by decide +kernel
  rw [← Char.ofNat_toNat c]
  exact listed _ (by omega) range.1

theorem digit_apart (digit : c.isDigit = true) :
    isBlank c = false ∧ c ≠ '"' ∧ isAlphabetic c = false ∧ TokenKind.ofSymbol? c = none := by
  have apart : "0123456789".toList.all (fun c => isBlank c = false ∧ c ≠ '"' ∧ isAlphabetic c = false ∧
      TokenKind.ofSymbol? c = none) = true := by decide +kernel
  exact of_decide_eq_true (List.all_eq_true.1 apart c (digit_cases digit))

-- A character that is no symbol does not start one.
theorem ofPair_none (none : TokenKind.ofSymbol? c = none) (d : Char) : TokenKind.ofPair? c d = .none := by
  unfold TokenKind.ofPair?
  split <;> first | rfl | cases none

theorem symbol_none : symbol? c cs = none ↔ TokenKind.ofSymbol? c = none := by
  cases cs with
  | nil => exact Option.map_eq_none_iff
  | cons d ds =>
    rw [symbol?]
    constructor
    · intro nothing
      split at nothing
      · cases nothing
      · exact Option.map_eq_none_iff.1 nothing
    · intro nothing
      rw [ofPair_none nothing, nothing]
      rfl

theorem symbol_digit (digit : c.isDigit = true) (cs : List Char) : symbol? c cs = none := by
  obtain ⟨-, -, -, single⟩ := digit_apart digit
  exact symbol_none.2 single

-- A run of digits, as the reader takes it.
structure Digits (digits : List Char) : Prop where
  any : digits ≠ []
  all : ∀ c ∈ digits, c.isDigit = true

theorem run_cut {p : Char → Bool} (all : ∀ c ∈ digits, p c = true) (stop : ∀ c ∈ rest.head?, p c = false) :
    (digits ++ rest).takeWhile p = digits ∧ (digits ++ rest).dropWhile p = rest := by
  rw [List.takeWhile_append_of_pos all, List.dropWhile_append_of_pos all]
  cases rest with
  | nil => simp
  | cons c rest => simp [stop c rfl]

theorem dropWhile_head (p : Char → Bool) (cs : List Char) : ∀ c ∈ (cs.dropWhile p).head?, p c = false := by
  intro c first
  have stop := List.head?_dropWhile_not p cs
  rwa [Option.mem_def.1 first] at stop

-- What is read where digits come first.
def numeralStep (r : Reader) : Numeral → Step (Option Token)
  | .range digits rest => r.readRange digits rest
  | .double whole fraction rest =>
    let text := whole ++ '.' :: fraction
    .ok (some (.ofChars .double (some (doubleValue (clamped text))) r.offset text)) (r.moveTo (byteLength text) rest)
  | .integer digits rest =>
    match integerToken r.offset digits with
    | .ok token => .ok (some token) (r.moveTo (byteLength digits) rest)
    | .error e => .error e (r.moveTo (byteLength digits) rest)

-- Behind blanks, the character that is not one starts what is read.
theorem next_past {blanks : List Char} (idle : r.deferred = []) (code : ∀ outer, r.modes ≠ .text :: outer)
    (front : r.rest = blanks ++ c :: cs) (blank : ∀ b ∈ blanks, isBlank b = true) (visible : isBlank c = false) :
    r.next = (r.moveTo (byteLength blanks) (c :: cs)).readToken c cs := by
  have stop : ∀ d ∈ (c :: cs).head?, isBlank d = false := by simpa using visible
  obtain ⟨skipped, left⟩ := run_cut blank stop
  have past : r.skipBlanks = r.moveTo (byteLength blanks) (c :: cs) := by rw [skipBlanks, front, skipped, left]
  rw [next_code idle code, past]
  rfl

theorem next_visible (visible : isBlank c = false) (cs : List Char) :
    next ⟨c :: cs, 0, [], []⟩ = readToken ⟨c :: cs, 0, [], []⟩ c cs :=
  next_past rfl (fun _ => (List.cons_ne_nil _ _).symm) rfl (List.forall_mem_nil _) visible

theorem readToken_digit (digit : c.isDigit = true) (cs : List Char) :
    r.readToken c cs = numeralStep r (.ofChars c cs) := by
  obtain ⟨-, noQuote, noLetter, -⟩ := digit_apart digit
  rw [readToken, symbol_digit digit, if_neg noQuote, noLetter, if_neg Bool.false_ne_true, if_pos digit]
  cases Numeral.ofChars c cs <;> rfl

theorem next_digit (digit : c.isDigit = true) (cs : List Char) :
    next ⟨c :: cs, 0, [], []⟩ = numeralStep ⟨c :: cs, 0, [], []⟩ (.ofChars c cs) := by
  rw [next_visible (digit_apart digit).1, readToken_digit digit]

def integerContent (digits : List Char) : Except LexicalError Content :=
  match Value.integerOfDigits? (Double.digitsValue (clamped digits)) with
  | some n => .ok (.integer, .ofList (clamped digits), some (.integer n))
  | none => .error (.malformedNumber (.ofList (clamped digits)))

theorem integerToken_content (lo : Nat) (digits : List Char) :
    match integerToken lo digits with
    | .ok t => Ordinary t.kind ∧ integerContent digits = .ok t.content
    | .error e => integerContent digits = .error e.value := by
  unfold integerToken integerContent
  cases Value.integerOfDigits? (Double.digitsValue (clamped digits)) with
  | none => rfl
  | some n => exact ⟨(by decide : Ordinary .integer), rfl⟩

theorem integerContent_kind {content : Content} (fits : integerContent digits = .ok content) :
    content.1 = .integer := by
  unfold integerContent at fits
  split at fits <;> cases fits
  rfl

-- What is behind the points of a range without blanks: a bound is nothing but digits.
def behindPoints (cs : List Char) : Contents :=
  if cs.takeWhile Char.isDigit = [] then contentsOfChars cs
  else withFirst (integerContent (cs.takeWhile Char.isDigit)) (contentsOfChars (cs.dropWhile Char.isDigit))

-- The number that a run of digits becomes by what follows it.
def Numeral.ofRun (digits : List Char) : List Char → Numeral
  | '.' :: '.' :: rest => .range digits rest
  | '.' :: d :: rest =>
    if d.isDigit then .double digits (d :: rest.takeWhile Char.isDigit) (rest.dropWhile Char.isDigit)
    else .integer digits ('.' :: d :: rest)
  | rest => .integer digits rest

theorem ofRun_double (digit : c.isDigit = true) :
    Numeral.ofRun digits ('.' :: c :: cs) =
      .double digits (c :: cs.takeWhile Char.isDigit) (cs.dropWhile Char.isDigit) := by
  have noPoint : c ≠ '.' := by
    rintro rfl
    cases digit
  rw [Numeral.ofRun, if_pos digit]
  simpa using noPoint

theorem next_run (run : Digits digits) (stop : ∀ c ∈ rest.head?, c.isDigit = false) :
    next ⟨digits ++ rest, 0, [], []⟩ = numeralStep ⟨digits ++ rest, 0, [], []⟩ (.ofRun digits rest) := by
  obtain ⟨c, ds, rfl⟩ := List.exists_cons_of_ne_nil run.any
  obtain ⟨digit, others⟩ := List.forall_mem_cons.1 run.all
  have same : Numeral.ofChars c (ds ++ rest) = .ofRun (c :: ds) rest := by
    obtain ⟨front, back⟩ := run_cut others stop
    rw [Numeral.ofChars, front, back]
    rfl
  rw [List.cons_append, next_digit digit, same]

theorem contents_integer (run : Digits digits) (stop : ∀ c ∈ rest.head?, c.isDigit = false)
    (alone : Numeral.ofRun digits rest = .integer digits rest) :
    contentsOfChars (digits ++ rest) = withFirst (integerContent digits) (contentsOfChars rest) := by
  have read := next_run run stop
  have content := integerToken_content 0 digits
  rw [alone, numeralStep] at read
  cases token : integerToken 0 digits with
  | error e =>
    rw [token] at read content
    rw [contents_fault read, content]
    rfl
  | ok t =>
    rw [token] at read content
    rw [contents_front read (List.forall_mem_singleton.2 content.1), content.2]
    rfl

theorem points_noDigit (rest : List Char) : ∀ c ∈ ('.' :: rest).head?, c.isDigit = false := by
  rintro c ⟨⟩
  rfl

theorem contents_double (run : Digits digits) (digit : c.isDigit = true) (rest : List Char) :
    ∃ content : Content, content.1 = .double ∧ contentsOfChars (digits ++ '.' :: c :: rest) =
      withFirst (.ok content) (contentsOfChars (rest.dropWhile Char.isDigit)) := by
  have read := next_run run (points_noDigit (c :: rest))
  rw [ofRun_double digit] at read
  exact ⟨_, rfl, contents_front read (List.forall_mem_singleton.2 (by decide : Ordinary .double))⟩

theorem contents_range (run : Digits digits) (rest : List Char) :
    contentsOfChars (digits ++ '.' :: '.' :: rest) =
      withFirst (integerContent digits) (withFirst (.ok pointsContent) (behindPoints rest)) := by
  have read := next_run run (points_noDigit ('.' :: rest))
  have left := integerToken_content 0 digits
  rw [Numeral.ofRun, numeralStep, readRange] at read
  cases first : integerToken 0 digits with
  | error e =>
    rw [first] at left
    simp only [first] at read
    rw [contents_fault read, left]
    rfl
  | ok t =>
    rw [first] at left
    simp only [first] at read
    rw [left.2, behindPoints]
    have points : Ordinary .dotDot := by decide
    split at read
    · next noBound =>
      rw [if_pos noBound, contents_front read (List.forall_mem_cons.2 ⟨left.1, List.forall_mem_singleton.2 points⟩)]
      rfl
    · next bound =>
      rw [if_neg bound]
      have right := integerToken_content (0 + byteLength digits + 2) (rest.takeWhile Char.isDigit)
      cases second : integerToken (0 + byteLength digits + 2) (rest.takeWhile Char.isDigit) with
      | error e =>
        rw [second] at right
        simp only [second] at read
        rw [contents_fault read, right]
        rfl
      | ok u =>
        rw [second] at right
        simp only [second] at read
        have ordinary : ∀ v ∈ [t, .ofChars .dotDot none (0 + byteLength digits) ['.', '.'], u], Ordinary v.kind :=
          List.forall_mem_cons.2 ⟨left.1, List.forall_mem_cons.2 ⟨points, List.forall_mem_singleton.2 right.1⟩⟩
        rw [contents_front read ordinary, right.2]
        rfl

-- The bounds of ranges without blanks, up to one with decimal places.
inductive ReachesDouble : List Char → Prop where
  | decimal {digits : List Char} {c : Char} {rest : List Char} : Digits digits → c.isDigit = true →
      ReachesDouble (digits ++ '.' :: c :: rest)
  | bound {digits rest : List Char} : Digits digits → ReachesDouble rest →
      ReachesDouble (digits ++ '.' :: '.' :: rest)

theorem behindPoints_run (run : Digits digits) (stop : ∀ c ∈ rest.head?, c.isDigit = false) :
    behindPoints (digits ++ rest) = withFirst (integerContent digits) (contentsOfChars rest) := by
  obtain ⟨front, back⟩ := run_cut run.all stop
  rw [behindPoints, front, back, if_neg run.any]

theorem run_in_front (any : cs.takeWhile Char.isDigit ≠ []) :
    ∃ digits rest, cs = digits ++ rest ∧ Digits digits ∧ ∀ c ∈ rest.head?, c.isDigit = false := by
  exact ⟨_, _, List.takeWhile_append_dropWhile.symm, ⟨any, List.all_eq_true.1 List.all_takeWhile⟩, dropWhile_head _ cs⟩

theorem ofRun_cases (digits rest : List Char) :
    (∃ more, rest = '.' :: '.' :: more) ∨ (∃ c more, rest = '.' :: c :: more ∧ c.isDigit = true) ∨
      Numeral.ofRun digits rest = .integer digits rest := by
  unfold Numeral.ofRun
  split
  · exact .inl ⟨_, rfl⟩
  · split
    · next digit => exact .inr (.inl ⟨_, _, rfl, digit⟩)
    · exact .inr (.inr rfl)
  · exact .inr (.inr rfl)

-- Behind the points of another range, what is read in one way on this side is read in the other way on that one.
theorem behindPoints_eq (cs : List Char) (noDouble : ¬ ReachesDouble cs) : behindPoints cs = contentsOfChars cs := by
  by_cases noBound : cs.takeWhile Char.isDigit = []
  · rw [behindPoints, if_pos noBound]
  · obtain ⟨digits, rest, whole, run, stop⟩ := run_in_front noBound
    rw [whole] at noDouble ⊢
    rw [behindPoints_run run stop]
    rcases ofRun_cases digits rest with ⟨more, rfl⟩ | ⟨c, more, rfl, digit⟩ | alone
    · rw [contents_range run, contents_points, behindPoints_eq more fun later => noDouble (.bound run later)]
    · exact absurd (.decimal run digit) noDouble
    · rw [contents_integer run stop alone]
termination_by cs.length
decreasing_by rw [whole]; simp only [List.length_append, List.length_cons]; omega

theorem withFirst_inj {content content' : Content} {more : Contents} (left : withFirst (.ok content) others = .ok items)
    (right : withFirst (.ok content') more = .ok items) :
    content = content' ∧ ∃ later, others = .ok later ∧ more = .ok later := by
  obtain ⟨_, later, ⟨⟩, rest, rfl⟩ := withFirst_ok.1 left
  obtain ⟨_, _, ⟨⟩, rest', same⟩ := withFirst_ok.1 right
  obtain ⟨rfl, rfl⟩ := List.cons.inj same
  exact ⟨rfl, later, rest, rest'⟩

theorem behindPoints_ne {cs : List Char} (reaches : ReachesDouble cs) :
    ∀ items, behindPoints cs = .ok items → contentsOfChars cs ≠ .ok items := by
  induction reaches with
  | @decimal digits c rest run digit =>
    intro items compact spaced
    obtain ⟨content, double, whole⟩ := contents_double run digit rest
    rw [behindPoints_run run (points_noDigit _)] at compact
    rw [whole] at spaced
    obtain ⟨bound, later, fits, -, -⟩ := withFirst_ok.1 compact
    rw [fits] at compact
    obtain ⟨rfl, -⟩ := withFirst_inj compact spaced
    rw [integerContent_kind fits] at double
    cases double
  | @bound digits rest run _ ih =>
    intro items compact spaced
    rw [behindPoints_run run (points_noDigit _), contents_points] at compact
    rw [contents_range run] at spaced
    obtain ⟨bound, later, fits, -, -⟩ := withFirst_ok.1 compact
    rw [fits] at compact spaced
    obtain ⟨-, later, compact, spaced⟩ := withFirst_inj compact spaced
    obtain ⟨-, later, compact, spaced⟩ := withFirst_inj compact spaced
    exact ih later spaced compact

theorem contents_spaced (run : Digits digits) (rest : List Char) :
    contentsOfChars (digits ++ ' ' :: '.' :: '.' :: ' ' :: rest) =
      withFirst (integerContent digits) (withFirst (.ok pointsContent) (contentsOfChars rest)) := by
  have blank : isBlank ' ' = true := by decide
  have stop : ∀ c ∈ (' ' :: '.' :: '.' :: ' ' :: rest).head?, c.isDigit = false := by
    rintro c ⟨⟩
    rfl
  rw [contents_integer run stop rfl, contents_blank blank, contents_points, contents_blank blank]

-- Behind the points, a range without blanks has digits for a bound, and one with blanks has all that can stand there.
-- So they are read in the same way, unless the bounds lead to one with decimal places.  With such a bound, there are
-- no tokens that come up both ways.
theorem range_contents_alike {left : String} (run : Digits left.toList) (right : String) :
    contentsOf (left ++ ".." ++ right) =
        withFirst (integerContent left.toList) (withFirst (.ok pointsContent) (behindPoints right.toList)) ∧
      contentsOf (left ++ " .. " ++ right) =
        withFirst (integerContent left.toList) (withFirst (.ok pointsContent) (contentsOf right)) ∧
      (¬ ReachesDouble right.toList → contentsOf (left ++ ".." ++ right) = contentsOf (left ++ " .. " ++ right)) ∧
      (ReachesDouble right.toList → ∀ items,
        ¬ (contentsOf (left ++ ".." ++ right) = .ok items ∧ contentsOf (left ++ " .. " ++ right) = .ok items)) := by
  have whole (points : String) : contentsOf (left ++ points ++ right) =
      contentsOfChars (left.toList ++ (points.toList ++ right.toList)) := by
    rw [contentsOfChars, ← List.append_assoc, ← String.toList_append, ← String.toList_append, String.ofList_toList]
  have compact : contentsOf (left ++ ".." ++ right) = _ := (whole "..").trans (contents_range run right.toList)
  have spaced : contentsOf (left ++ " .. " ++ right) = _ := (whole " .. ").trans (contents_spaced run right.toList)
  have alone : contentsOfChars right.toList = contentsOf right := by rw [contentsOfChars, String.ofList_toList]
  rw [alone] at spaced
  refine ⟨compact, spaced, fun noDouble => ?_, fun reaches items both => ?_⟩
  · rw [compact, spaced, behindPoints_eq _ noDouble, alone]
  · obtain ⟨one, other⟩ := both
    rw [compact] at one
    rw [spaced] at other
    obtain ⟨bound, later, fits, -, -⟩ := withFirst_ok.1 one
    rw [fits] at one other
    obtain ⟨-, later, one, other⟩ := withFirst_inj one other
    obtain ⟨-, later, one, other⟩ := withFirst_inj one other
    rw [← alone] at other
    exact behindPoints_ne reaches later one other

theorem rows_from_one :
    Digits "1".toList ∧ ¬ ReachesDouble "20..n".toList ∧ contentsOf "1..20..n" = contentsOf "1 .. 20..n" ∧
      ReachesDouble "2..3.5".toList ∧
      ∀ items, ¬ (contentsOf "1..2..3.5" = .ok items ∧ contentsOf "1 .. 2..3.5" = .ok items) := by
  have single {c : Char} (digit : c.isDigit = true) : Digits [c] :=
    ⟨List.cons_ne_nil _ _, List.forall_mem_singleton.2 digit⟩
  have one : Digits "1".toList := single rfl
  have reaches : ReachesDouble "2..3.5".toList := .bound (single rfl) (.decimal (single rfl) rfl)
  obtain ⟨-, -, -, apart⟩ := range_contents_alike one "2..3.5"
  obtain ⟨-, -, alike, -⟩ := range_contents_alike one "20..n"
  have noDouble : ¬ ReachesDouble "20..n".toList := fun reaches => by
    let items : List Content := [(.integer, "20", some (.integer 20)), pointsContent, (.identifier, "n", none)]
    have compact : behindPoints "20..n".toList = .ok items := ok_of_toOption (by decide +kernel)
    exact behindPoints_ne reaches items compact (ok_of_toOption (by decide +kernel))
  exact ⟨one, noDouble, alike noDouble, reaches, apart reaches⟩

-- Without blanks the right bound ends in front of its point.
theorem decimal_bound_split :
    (contentsOf "1..2.5").toOption.map (·.map Prod.fst) = some [.integer, .dotDot, .integer, .dot, .integer] ∧
      (contentsOf "1 .. 2.5").toOption.map (·.map Prod.fst) = some [.integer, .dotDot, .double] := by
  decide +kernel

end Frontend
