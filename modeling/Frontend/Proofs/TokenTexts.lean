import Frontend.Proofs.CompactRanges
import Frontend.Proofs.Separation

-- The text of a token, read on its own.  A token is cut out of its surroundings, and what follows it has a say
-- in where it ends.  Outside of strings its text is the same token all the same when nothing stands around it,
-- so that the texts of a source with blanks between them list what the source lists.

namespace Frontend

open Reader Scanner Grammar Text

variable {r r' : Reader} {t : Token} {ts : List Token} {kind : TokenKind} {c : Char}
  {cs text rest digits : List Char} {offset : Nat}

-- The text of the token is read as this token, and nothing else.
def Token.Alone (t : Token) : Prop := contentsOf t.text = .ok [t.content]

theorem contents_nil : contentsOfChars [] = .ok [] := by
  have whole : Lists (Scanner.ofSource (.ofList [])) [] := by
    rw [ofSource_ofList]
    exact .ended rfl
  rw [contentsOfChars, whole.contents]
  rfl

theorem contents_single (read : next ⟨cs, 0, [], []⟩ = .ok (some t) ⟨[], offset, [], []⟩)
    (noText : t.kind ≠ .stringText) : contentsOfChars cs = .ok [t.content] := by
  have whole : Lists (Scanner.ofSource (.ofList cs)) [.ok t] := by
    rw [ofSource_ofList]
    refine .token read ?_
    rw [behind_nil noText]
    exact .ended rfl
  rw [contentsOfChars, whole.contents]
  rfl

-- A text that is not cut is read again from all the characters that it was read from.
theorem alone_of_contents {value : Option Value} {lo : Nat} (short : byteLength text ≤ Span.maxLen)
    (contents : contentsOfChars text = .ok [(kind, .ofList text, value)]) :
    (Token.ofChars kind value lo text).Alone := by
  have whole : (Token.ofChars kind value lo text).text = .ofList text := congrArg String.ofList (clamped_eq short)
  rw [Token.Alone, Token.content, whole]
  exact contents

theorem alone_of_read {value : Option Value} {lo : Nat} (noText : kind ≠ .stringText)
    (short : byteLength text ≤ Span.maxLen)
    (read : next ⟨text, 0, [], []⟩ = .ok (some (.ofChars kind value 0 text)) ⟨[], 0 + byteLength text, [], []⟩) :
    (Token.ofChars kind value lo text).Alone := by
  have contents := contents_single read noText
  refine alone_of_contents short (contents.trans ?_)
  rw [Token.content, Token.ofChars, clamped_eq short]

-- A symbol does not depend on what follows its characters.
theorem symbol_text (found : symbol? c cs = some (kind, text, rest)) :
    ∃ more, text = c :: more ∧ symbol? c more = some (kind, text, []) := by
  rcases symbol_cases found with ⟨d, pair, rfl, -⟩ | ⟨-, spelled, rfl, -⟩
  · exact ⟨[d], rfl, by rw [symbol?, pair]⟩
  · refine ⟨[], rfl, ?_⟩
    rw [symbol?, spelled]
    rfl

theorem run_alone {p : Char → Bool} (all : ∀ c ∈ text, p c = true) :
    text.takeWhile p = text ∧ text.dropWhile p = [] := by
  have stop : ∀ c ∈ ([] : List Char).head?, p c = false := nofun
  simpa using run_cut all stop

-- What the characters of a number are.
def Numeral.Written : Numeral → Prop
  | .integer digits _ => Digits digits
  | .double whole fraction _ => Digits whole ∧ Digits fraction
  | .range digits _ => Digits digits

theorem numeral_written (digit : c.isDigit = true) (cs : List Char) : (Numeral.ofChars c cs).Written := by
  have run {c : Char} (digit : c.isDigit = true) (cs : List Char) : Digits (c :: cs.takeWhile Char.isDigit) :=
    ⟨List.cons_ne_nil _ _, List.forall_mem_cons.2 ⟨digit, List.all_eq_true.1 List.all_takeWhile⟩⟩
  fun_cases Numeral.ofChars c cs with
  | case1 | case3 | case4 => exact run digit cs
  | case2 _ d rest _ _ fraction => exact ⟨run digit cs, run fraction _⟩

theorem contents_digits (run : Digits digits) :
    contentsOfChars digits = withFirst (integerContent digits) (.ok []) := by
  have stop : ∀ c ∈ ([] : List Char).head?, c.isDigit = false := nofun
  have whole := contents_integer run stop rfl
  rwa [List.append_nil, contents_nil] at whole

theorem integerToken_alone {lo : Nat} (run : Digits digits) (short : byteLength digits ≤ Span.maxLen)
    (fits : integerToken lo digits = .ok t) : t.Alone := by
  have content := integerToken_content lo digits
  rw [fits] at content
  obtain ⟨n, -, rfl⟩ := integerToken_eq_ok.1 fits
  refine alone_of_contents short ?_
  rw [contents_digits run, content.2, Token.content, Token.ofChars, clamped_eq short]
  rfl

theorem double_alone {whole fraction : List Char} {lo : Nat} (run : Digits whole) (run' : Digits fraction)
    (short : byteLength (whole ++ '.' :: fraction) ≤ Span.maxLen) :
    (Token.ofChars .double (some (doubleValue (clamped (whole ++ '.' :: fraction)))) lo
      (whole ++ '.' :: fraction)).Alone := by
  obtain ⟨d, ds, rfl⟩ := List.exists_cons_of_ne_nil run'.any
  obtain ⟨digit, others⟩ := List.forall_mem_cons.1 run'.all
  obtain ⟨front, back⟩ := run_alone others
  have read := next_run run (points_noDigit (d :: ds))
  rw [ofRun_double digit, front, back] at read
  exact alone_of_read (by decide) short read

-- The token that comes next is itself where it stands alone, unless it opens a string, and so is every token
-- found along with it.
def AloneStep : Step (Option Token) → Prop
  | .ok (some t) r => (t.kind ≠ .stringBegin → t.Alone) ∧ ∀ u ∈ r.deferred, u.Alone
  | _ => True

theorem points_alone (lo : Nat) : (Token.ofChars .dotDot none lo ['.', '.']).Alone :=
  alone_of_read (by decide) (by decide) rfl

theorem readRange_alone (run : Digits digits) (short : byteLength digits + 2 + byteLength rest ≤ Span.maxLen) :
    AloneStep (r.readRange digits rest) := by
  have parts := byteLength_span Char.isDigit rest
  have outcome := r.readRange_outcome digits rest
  generalize r.readRange digits rest = step at outcome ⊢
  cases outcome with
  | leftGreat | rightGreat => trivial
  | unbounded fits =>
    exact ⟨fun _ => integerToken_alone run (by omega) fits, List.forall_mem_singleton.2 (points_alone _)⟩
  | bounded fits bound fits' =>
    have second := integerToken_alone ⟨bound, List.all_eq_true.1 List.all_takeWhile⟩ (by omega) fits'
    exact ⟨fun _ => integerToken_alone run (by omega) fits,
      List.forall_mem_cons.2 ⟨points_alone _, List.forall_mem_singleton.2 second⟩⟩

theorem readToken_alone (visible : isBlank c = false) (idle : r.deferred = [])
    (short : byteLength (c :: cs) ≤ Span.maxLen) : AloneStep (r.readToken c cs) := by
  have waiting : ∀ u ∈ r.deferred, u.Alone := by
    rw [idle]
    exact List.forall_mem_nil _
  have number := numeral_bytes c cs
  have outcome := r.readToken_outcome c cs
  generalize r.readToken c cs = step at outcome ⊢
  cases outcome with
  | symbol found =>
    refine ⟨fun _ => ?_, waiting⟩
    have size := symbol_bytes found
    obtain ⟨more, rfl, again⟩ := symbol_text found
    refine alone_of_read (symbol_plain found).2.1 (by omega) ?_
    rw [next_visible visible, readToken, again]
    rfl
  | quote => exact ⟨fun opens => absurd rfl opens, waiting⟩
  | word noSymbol noQuote letter written spelled =>
    subst written spelled
    have size := byteLength_span isAlphanumeric cs
    have short' : byteLength (c :: cs.takeWhile isAlphanumeric) ≤ Span.maxLen := by
      rw [byteLength_cons] at short ⊢
      omega
    refine ⟨fun _ => alone_of_read (ofWord_inert _).1.2.1 short' ?_, waiting⟩
    have noSymbol' : symbol? c (cs.takeWhile isAlphanumeric) = none := symbol_none.2 (symbol_none.1 noSymbol)
    obtain ⟨front, back⟩ := run_alone (p := isAlphanumeric) (List.all_eq_true.1 (List.all_takeWhile (l := cs)))
    rw [next_visible visible, readToken, noSymbol', if_neg noQuote, if_pos letter, front, back]
    rfl
  | range digit found read =>
    have written := numeral_written digit cs
    rw [found] at written number
    exact read ▸ readRange_alone written (number.trans_le short)
  | double digit found =>
    have written := numeral_written digit cs
    rw [found] at written number
    exact ⟨fun _ => double_alone written.1 written.2 ((Nat.le_add_right _ _).trans (number.trans_le short)), waiting⟩
  | integer digit found fits =>
    have written := numeral_written digit cs
    rw [found] at written number
    exact ⟨fun _ => integerToken_alone written ((Nat.le_add_right _ _).trans (number.trans_le short)) fits, waiting⟩
  | great | unexpected => trivial

theorem next_alone (unquoted : r.Unquoted) (short : byteLength r.rest ≤ Span.maxLen)
    (waiting : ∀ u ∈ r.deferred, u.Alone) : AloneStep r.next := by
  have outcome := r.next_outcome
  generalize r.next = step at outcome ⊢
  cases outcome with
  | waiting waits =>
    rw [waits] at waiting
    obtain ⟨first, others⟩ := List.forall_mem_cons.1 waiting
    exact ⟨fun _ => first, others⟩
  | text _ inside => cases unquoted.outside.symm.trans inside
  | ended => trivial
  | token idle _ front read =>
    have visible := dropWhile_head isBlank r.rest
    have size := byteLength_span isBlank r.rest
    rw [front] at visible size
    exact read ▸ readToken_alone (r := r.skipBlanks) (visible _ rfl) idle (by omega)

namespace Scanner

theorem Lists.alone {s : Scanner} {answers : List Answer} (lists : Lists s answers) (unquoted : s.reader.Unquoted)
    (outside : s.segments = []) (short : s.reader.bytes ≤ Span.maxLen)
    (waiting : ∀ u ∈ s.reader.deferred, u.Alone) :
    ∀ t, .ok t ∈ answers → t.Alone := by
  induction lists with
  | ended _ | fault _ => simp
  | @token s r t rest read _ ih =>
    obtain ⟨kind, later⟩ := unquoted.next read
    have step := next_alone unquoted ((Nat.le_add_left _ _).trans short) waiting
    have bytes := next_bytes s.reader
    rw [read] at step bytes
    have other {quote : TokenKind} (among : quote ∈ quoteKinds) : t.kind ≠ quote := fun same => kind (same ▸ among)
    rw [outside, behind_nil (other (by decide))] at ih
    simpa using ⟨step.1 (other (by decide)), ih later rfl (bytes.trans_le short) step.2⟩

end Scanner

theorem contents_joined {a b : String} {content : Content} (single : contentsOf a = .ok [content])
    (noQuote : content.1 ∉ quoteKinds) : contentsOf (a ++ " " ++ b) = withFirst (.ok content) (contentsOf b) := by
  rw [contentsOf] at single
  split at single
  · next us listed =>
    obtain ⟨u, rfl, same⟩ := List.map_eq_singleton_iff.1 (Except.ok.inj single)
    rw [← same] at noQuote
    have unquoted : ∀ v ∈ [u], v.kind ∉ quoteKinds := List.forall_mem_singleton.2 noQuote
    have whole : (a ++ " " ++ b).toList = a.toList ++ ' ' :: b.toList := by simp
    have closed : ∀ t ∈ [u].getLast?, ¬ t.Abrupt := by
      intro t last abrupt
      have among : t ∈ [u] := List.mem_of_getLast? last
      exact unquoted t among (by rw [abrupt.1]; decide)
    obtain ⟨answers, others⟩ := exists_lists b
    have lists := lists_joined (by decide) whole listed (walks_unquoted unquoted) closed others
    rw [lists.contents, others.contents, told_append, told_shift, ← same]
    rfl
  · cases single

theorem contents_texts (alone : ∀ t ∈ ts, t.Alone) (noQuote : ∀ t ∈ ts, t.kind ∉ quoteKinds) :
    contentsOf (" ".intercalate (ts.map Token.text)) = .ok (ts.map Token.content) := by
  induction ts with
  | nil => exact contents_nil
  | cons t ts ih =>
    obtain ⟨first, others⟩ := List.forall_mem_cons.1 alone
    obtain ⟨plain, others'⟩ := List.forall_mem_cons.1 noQuote
    cases ts with
    | nil => exact String.intercalate_singleton ▸ first
    | cons u us =>
      rw [List.map_cons, List.map_cons, String.intercalate_cons_cons, contents_joined first plain, ← List.map_cons,
        ih others others']
      rfl

-- Outside of strings, a token is what its text says, where no text is cut.  The texts of a source, with blanks between
-- them, list the same kinds, texts and values again, and each of them on its own is one token.
theorem token_texts_listed_again {source : String} (short : source.utf8ByteSize < UInt32.size)
    (noQuote : '"' ∉ source.toList) (listed : tokensOf source = .ok ts) :
    contentsOf (" ".intercalate (ts.map Token.text)) = .ok (ts.map Token.content) ∧
      ∀ t ∈ ts, contentsOf t.text = .ok [t.content] := by
  have alone : ∀ t ∈ ts, t.Alone := by
    have bytes : (Scanner.ofSource source).reader.bytes ≤ Span.maxLen := by
      have short' : byteLength source.toList ≤ Span.maxLen := byteLength_toList source ▸ Nat.le_of_lt_succ short
      simpa [Reader.bytes, Scanner.ofSource, Reader.ofSource] using short'
    have each := (tokensOf_ok.1 listed).alone ⟨rfl, List.forall_mem_nil _, noQuote⟩ rfl bytes (List.forall_mem_nil _)
    simpa using each
  exact ⟨contents_texts alone (tokensOf_unquoted noQuote listed), alone⟩

-- A range without blanks ends in front of the point of its second bound, and so it does with blanks around its parts.
theorem range_listed_again :
    let source := "x1=1..2.5<=é"
    ∃ ts, source.utf8ByteSize < UInt32.size ∧ '"' ∉ source.toList ∧ tokensOf source = .ok ts ∧
      ts.map Token.text = ["x1", "=", "1", "..", "2", ".", "5", "<=", "é"] ∧
      contentsOf (" ".intercalate (ts.map Token.text)) = .ok (ts.map Token.content) ∧
      ∀ t ∈ ts, contentsOf t.text = .ok [t.content] := by
  intro source
  have short : source.utf8ByteSize < UInt32.size := by decide +kernel
  have noQuote : '"' ∉ source.toList := by decide
  have texts : (tokensOf source).toOption.map (·.map Token.text) =
      some ["x1", "=", "1", "..", "2", ".", "5", "<=", "é"] := by
    decide +kernel
  cases listed : tokensOf source with
  | error e => rw [listed] at texts; cases texts
  | ok ts =>
    rw [listed] at texts
    exact ⟨ts, short, noQuote, rfl, Option.some.inj texts, token_texts_listed_again short noQuote listed⟩

-- Characters of one byte in a row, and what is left of more of them than a span can reach over.
theorem fitting_run (single : c.utf8Size = 1) {room count : Nat} (long : room ≤ count) (rest : List Char) :
    fitting room (List.replicate count c ++ rest) = List.replicate room c := by
  induction room generalizing count with
  | zero =>
    cases whole : List.replicate count c ++ rest with
    | nil => rfl
    | cons d ds => exact if_neg (Nat.not_le_of_gt d.utf8Size_pos)
  | succ room ih =>
    obtain ⟨more, rfl⟩ := Nat.exists_eq_add_of_le' (Nat.le_trans (Nat.le_add_left 1 room) long)
    rw [List.replicate_succ, List.cons_append, fitting, single, if_pos (Nat.le_add_left 1 room), Nat.add_sub_cancel,
      ih (Nat.le_of_succ_le_succ long), List.replicate_succ]

theorem byteLength_run (single : c.utf8Size = 1) (count : Nat) : byteLength (List.replicate count c) = count := by
  induction count with
  | zero => rfl
  | succ count ih => rw [List.replicate_succ, byteLength_cons, ih, single, Nat.add_comm]

theorem run_digits (digit : c.isDigit = true) {count : Nat} (any : count ≠ 0) : Digits (List.replicate count c) :=
  ⟨fun empty => any ((List.replicate_eq_nil_iff _).1 empty), fun _ among => List.eq_of_mem_replicate among ▸ digit⟩

theorem zeros_worth (count : Nat) : Double.digitsValue (List.replicate count '0') = 0 := by
  induction count with
  | zero => rfl
  | succ count ih => exact List.replicate_succ ▸ ih

theorem zeros_contents {count : Nat} (any : count ≠ 0) (short : count ≤ Span.maxLen) :
    contentsOfChars (List.replicate count '0') =
      .ok [(.integer, .ofList (List.replicate count '0'), some (.integer 0))] := by
  have uncut : clamped (List.replicate count '0') = List.replicate count '0' :=
    clamped_eq (by rwa [byteLength_run rfl])
  rw [contents_digits (run_digits (by decide) any), integerContent, uncut, zeros_worth]
  rfl

theorem long_double_read {count : Nat} (any : count ≠ 0) :
    tokensOf (.ofList (List.replicate count '0' ++ ['.', '5'])) =
      .ok [.ofChars .double (some (doubleValue (clamped (List.replicate count '0' ++ ['.', '5'])))) 0
        (List.replicate count '0' ++ ['.', '5'])] := by
  have read := next_run (run_digits (c := '0') (by decide) any) (points_noDigit ['5'])
  rw [ofRun_double (by decide)] at read
  refine tokensOf_ok.2 ?_
  rw [ofSource_ofList]
  refine .token read ?_
  rw [behind_nil (by decide : TokenKind.double ≠ .stringText)]
  exact .ended rfl

-- The texts of a longer source can be cut.  Where as many zeros come before a point as a span cannot reach over,
-- nothing but zeros is left of the text of the double, and they are listed as an integer.
theorem cut_double_listed_as_integer :
    let source := String.ofList (List.replicate UInt32.size '0' ++ ['.', '5'])
    '"' ∉ source.toList ∧ ∃ t, tokensOf source = .ok [t] ∧ t.kind = .double ∧
      contentsOf t.text = .ok [(.integer, t.text, some (.integer 0))] := by
  have cut : clamped (List.replicate UInt32.size '0' ++ ['.', '5']) = List.replicate Span.maxLen '0' :=
    fitting_run rfl (Nat.le_succ _) _
  refine ⟨?_, _, long_double_read (by decide), rfl, ?_⟩
  · rw [String.toList_ofList]
    simp [List.mem_replicate]
  · rw [Token.ofChars, cut]
    exact zeros_contents (by decide) (Nat.le_refl _)

end Frontend
