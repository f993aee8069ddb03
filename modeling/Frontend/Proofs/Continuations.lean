import Frontend.Proofs.TokenEnds

-- Other characters behind what was read.  Of the characters behind a token its end depends on the first one
-- only.  So the tokens up to some place are read in front of other characters as well, if these start with the
-- same one, and in front of none.

namespace Frontend

open Reader Scanner Text

-- In the place of `d` and all that is behind it there are other characters that start with `d`, or none.
structure Swaps (d : Char) (more : List Char) : Prop where
  first : ∀ x ∈ more.head?, x = d
  -- Behind one point, it matters whether another one follows.
  noPoint : d ≠ '.'

def Reader.facing (r : Reader) (cs : List Char) : Reader := { r with rest := cs }

@[simp] theorem Reader.facing_rest (r : Reader) (cs : List Char) : (r.facing cs).rest = cs := rfl

@[simp] theorem Reader.facing_offset (r : Reader) (cs : List Char) : (r.facing cs).offset = r.offset := rfl

@[simp] theorem Reader.facing_modes (r : Reader) (cs : List Char) : (r.facing cs).modes = r.modes := rfl

@[simp] theorem Reader.facing_deferred (r : Reader) (cs : List Char) : (r.facing cs).deferred = r.deferred := rfl

def Scanner.facing (s : Scanner) (cs : List Char) : Scanner := { s with reader := s.reader.facing cs }

variable {r r' : Reader} {s s' : Scanner} {t : Token} {ts : List Token} {kind : TokenKind} {c d x : Char}
  {xs ys ds cs more text digits rest front : List Char} {p : Char → Bool}

theorem not_behind (part : ys ++ d :: ds <:+ ds) : False := by
  have := part.length_le
  simp only [List.length_append, List.length_cons] at this
  omega

theorem run_other (swaps : Swaps d more) (left : (xs ++ d :: ds).dropWhile p = ys ++ d :: ds) :
    (xs ++ more).takeWhile p = (xs ++ d :: ds).takeWhile p ∧ (xs ++ more).dropWhile p = ys ++ more := by
  by_cases passed : xs.dropWhile p = []
  · have stop : p d = false := by
      rw [List.dropWhile_append, passed, List.isEmpty_nil, if_pos rfl, List.dropWhile_cons] at left
      split at left
      · exact (not_behind (left ▸ List.dropWhile_suffix p)).elim
      · next stop => simpa using stop
    have stops : ∀ x ∈ (d :: ds).head?, p x = false := by simpa using stop
    have stops' : ∀ x ∈ more.head?, p x = false := fun x first => swaps.first x first ▸ stop
    rw [dropWhile_stop stops] at left
    rw [takeWhile_stop stops, takeWhile_stop stops', dropWhile_stop stops', List.append_cancel_right left]
    exact ⟨rfl, rfl⟩
  · rw [List.dropWhile_append, if_neg (by simpa using passed)] at left ⊢
    rw [takeWhile_passed passed, takeWhile_passed passed, List.append_cancel_right left]
    exact ⟨rfl, rfl⟩

theorem symbol_other (swaps : Swaps d more) (found : symbol? x (xs ++ d :: ds) = some (kind, text, ys ++ d :: ds)) :
    symbol? x (xs ++ more) = some (kind, text, ys ++ more) := by
  cases xs with
  | nil =>
    rw [List.nil_append, symbol?] at found
    split at found
    · obtain ⟨-, -, shorter⟩ := by simpa using found
      exact (not_behind ⟨[], shorter.symm⟩).elim
    · next single =>
      obtain ⟨_, spelled, same⟩ := Option.map_eq_some_iff.1 found
      simp only [Prod.mk.injEq, List.self_eq_append_left] at same
      obtain ⟨rfl, rfl, rfl⟩ := same
      cases more with
      | nil => rw [List.append_nil, symbol?, spelled]; rfl
      | cons e es =>
        rw [swaps.first e rfl, List.nil_append, symbol?, single, spelled]
        rfl
  | cons y xs =>
    rw [List.cons_append, symbol?] at found ⊢
    split at found
    · next pair =>
      simp only [Option.some.injEq, Prod.mk.injEq, List.append_cancel_right_eq] at found
      obtain ⟨rfl, rfl, rfl⟩ := found
      rfl
    · next single =>
      obtain ⟨_, spelled, same⟩ := Option.map_eq_some_iff.1 found
      simp only [Prod.mk.injEq, ← List.cons_append, List.append_cancel_right_eq] at same
      obtain ⟨rfl, rfl, rfl⟩ := same
      rw [spelled]
      rfl

def Numeral.facing (cs : List Char) : Numeral → Numeral
  | .integer digits _ => .integer digits cs
  | .double whole fraction _ => .double whole fraction cs
  | .range digits _ => .range digits cs

theorem ofRun_alone (noPoint : ∀ c ∈ rest.head?, c ≠ '.') : Numeral.ofRun digits rest = .integer digits rest := by
  rcases ofRun_cases digits rest with ⟨more, rfl⟩ | ⟨c, more, rfl, -⟩ | alone
  · exact absurd rfl (noPoint _ rfl)
  · exact absurd rfl (noPoint _ rfl)
  · exact alone

-- One point that no digit follows.
theorem ofRun_point (noPoint : ∀ c ∈ rest.head?, c ≠ '.') (stop : ∀ c ∈ rest.head?, c.isDigit = false) :
    Numeral.ofRun digits ('.' :: rest) = .integer digits ('.' :: rest) := by
  rcases ofRun_cases digits ('.' :: rest) with ⟨more, same⟩ | ⟨c, more, same, digit⟩ | alone
  · cases same
    exact absurd rfl (noPoint _ rfl)
  · cases same
    rw [stop c rfl] at digit
    cases digit
  · exact alone

theorem ofRun_other (swaps : Swaps d more) (left : (Numeral.ofRun digits (xs ++ d :: ds)).behind = ys ++ d :: ds) :
    Numeral.ofRun digits (xs ++ more) = (Numeral.ofRun digits (xs ++ d :: ds)).facing (ys ++ more) := by
  have noPoint : ∀ c ∈ more.head?, c ≠ '.' := fun c first => swaps.first c first ▸ swaps.noPoint
  have noPoint' : ∀ c ∈ (d :: ds).head?, c ≠ '.' := by simpa using swaps.noPoint
  have alone (kept : Numeral.ofRun digits (xs ++ d :: ds) = .integer digits (xs ++ d :: ds))
      (kept' : Numeral.ofRun digits (xs ++ more) = .integer digits (xs ++ more)) :
      Numeral.ofRun digits (xs ++ more) = (Numeral.ofRun digits (xs ++ d :: ds)).facing (ys ++ more) := by
    rw [kept] at left ⊢
    rw [kept', List.append_cancel_right left]
    rfl
  rcases xs with _ | ⟨y, xs⟩
  · exact alone (ofRun_alone noPoint') (ofRun_alone noPoint)
  · by_cases other : y ≠ '.'
    · exact alone (ofRun_alone (by simpa using other)) (ofRun_alone (by simpa using other))
    · obtain rfl := Classical.not_not.1 other
      rcases xs with _ | ⟨z, xs⟩
      · have stop : d.isDigit = false := by
          rw [Bool.eq_false_iff]
          intro digit
          rw [List.singleton_append, ofRun_double digit] at left
          have left : ds.dropWhile Char.isDigit = ys ++ d :: ds := left
          exact not_behind (left ▸ List.dropWhile_suffix _)
        exact alone (ofRun_point noPoint' (by simpa using stop))
          (ofRun_point noPoint fun c first => swaps.first c first ▸ stop)
      · by_cases point : z = '.'
        · subst point
          have same : xs ++ d :: ds = ys ++ d :: ds := left
          rw [List.append_cancel_right same]
          rfl
        · by_cases digit : z.isDigit
          · simp only [List.cons_append, ofRun_double digit] at left ⊢
            obtain ⟨front, back⟩ := run_other swaps left
            rw [front, back]
            rfl
          · exact alone (ofRun_point (by simpa using point) (by simpa using digit))
              (ofRun_point (by simpa using point) (by simpa using digit))

theorem ofChars_other (swaps : Swaps d more)
    (left : (Numeral.ofChars c (xs ++ d :: ds)).behind = ys ++ d :: ds) :
    Numeral.ofChars c (xs ++ more) = (Numeral.ofChars c (xs ++ d :: ds)).facing (ys ++ more) := by
  rw [ofChars_run] at left
  have inside : d :: ds <:+ (xs ++ d :: ds).dropWhile Char.isDigit :=
    (List.suffix_append ys _).trans (left ▸ ofRun_suffix _ _)
  obtain ⟨zs, whole⟩ := inside
  obtain ⟨front, back⟩ := run_other swaps whole.symm
  rw [← whole] at left
  rw [ofChars_run, ofChars_run, front, back, ← whole]
  exact ofRun_other swaps left

def TextStop.behind : TextStop → List Char
  | .endOfInput => []
  | .quote rest => rest
  | .segment rest => rest

def TextStop.facing (cs : List Char) : TextStop → TextStop
  | .endOfInput => .endOfInput
  | .quote _ => .quote cs
  | .segment _ => .segment cs

-- A text that is still open goes on with what follows.
theorem splitText_onward (opened : (splitText cs).2 = .endOfInput) (any : rest ≠ []) :
    (splitText (cs ++ rest)).2.behind.length < rest.length := by
  fun_induction splitText cs with
  | case1 =>
    have shorter := splitText_length rest
    rw [List.nil_append]
    cases stop : (splitText rest).2 <;> rw [stop] at shorter
    · exact List.length_pos_iff.2 any
    · exact shorter
    · exact Nat.lt_of_succ_lt shorter
  | case2 | case3 => cases opened
  | case4 x cs noQuote noSegment text stop found ih =>
    by_cases straddles : x = '$' ∧ (cs ++ rest).head? = some '{'
    · obtain ⟨rfl, brace⟩ := straddles
      cases cs with
      | cons y cs => exact (noSegment cs rfl (by cases brace; rfl)).elim
      | nil =>
        cases rest with
        | nil => contradiction
        | cons e es =>
          cases brace
          exact Nat.lt_succ_self _
    · rw [List.cons_append, splitText_cons noQuote fun dollar brace => straddles ⟨dollar, brace⟩]
      exact ih (by rw [found]; exact opened)

theorem splitText_other {stop : TextStop} (found : splitText (xs ++ d :: ds) = (text, stop))
    (left : stop.behind = ys ++ d :: ds) (more : List Char) :
    splitText (xs ++ more) = (text, stop.facing (ys ++ more)) := by
  have before := splitText_append xs (d :: ds)
  have before' := splitText_append xs more
  rcases front : splitText xs with ⟨text', _ | rest | rest⟩ <;> rw [front] at before before'
  · have shorter := splitText_onward (by rw [front]) (List.cons_ne_nil d ds)
    rw [found, left, List.length_append] at shorter
    omega
  all_goals
    cases found.symm.trans before
    have same : rest ++ d :: ds = ys ++ d :: ds := left
    rw [List.append_cancel_right same] at before'
    exact before'

namespace Reader

theorem readText_other {outer : List Mode} (read : r.readText outer = .ok (some t) r') (whole : r.rest = xs ++ d :: ds)
    (left : r'.rest = ys ++ d :: ds) (more : List Char) :
    (r.facing (xs ++ more)).readText outer = .ok (some t) (r'.facing (ys ++ more)) := by
  have outcome := r.readText_outcome outer
  rw [read] at outcome
  cases outcome with
  | unclosed => cases ys <;> cases left
  | closed found | segment found =>
    rw [whole] at found
    rw [readText, facing_rest, splitText_other found left more]
    rfl

theorem readRange_other (swaps : Swaps d more) (read : r.readRange digits (xs ++ d :: ds) = .ok (some t) r')
    (left : r'.rest = ys ++ d :: ds) (cs : List Char) :
    (r.facing cs).readRange digits (xs ++ more) = .ok (some t) (r'.facing (ys ++ more)) := by
  have outcome := r.readRange_outcome digits (xs ++ d :: ds)
  rw [read] at outcome
  rw [readRange, facing_offset]
  cases outcome with
  | unbounded fits noBound =>
    have left : xs ++ d :: ds = ys ++ d :: ds := left
    have still : (xs ++ d :: ds).dropWhile Char.isDigit = ys ++ d :: ds := by
      rw [← left]
      simpa [noBound] using List.takeWhile_append_dropWhile (p := Char.isDigit) (l := xs ++ d :: ds)
    rw [fits, (run_other swaps still).1, noBound, List.append_cancel_right left]
    rfl
  | bounded fits bound fits' =>
    obtain ⟨front, back⟩ := run_other swaps left
    rw [fits, front, back]
    dsimp only
    rw [if_neg bound, fits']
    rfl

theorem numeralStep_other (swaps : Swaps d more) {numeral : Numeral} (front : numeral.behind = xs ++ d :: ds)
    (read : numeralStep r numeral = .ok (some t) r') (left : r'.rest = ys ++ d :: ds) (cs : List Char) :
    numeralStep (r.facing cs) (numeral.facing (xs ++ more)) = .ok (some t) (r'.facing (ys ++ more)) := by
  cases numeral with
  | range digits rest =>
    cases front
    exact readRange_other swaps read left cs
  | double whole fraction rest =>
    cases front
    cases read
    have left : xs ++ d :: ds = ys ++ d :: ds := left
    rw [List.append_cancel_right left]
    rfl
  | integer digits rest =>
    cases front
    rw [numeralStep] at read
    split at read
    · next fits =>
      cases read
      have left : xs ++ d :: ds = ys ++ d :: ds := left
      rw [Numeral.facing, numeralStep, facing_offset, fits,
        List.append_cancel_right left]
      rfl
    · cases read

theorem readToken_other (swaps : Swaps d more) (read : r.readToken c (xs ++ d :: ds) = .ok (some t) r')
    (left : r'.rest = ys ++ d :: ds) (cs : List Char) :
    (r.facing cs).readToken c (xs ++ more) = .ok (some t) (r'.facing (ys ++ more)) := by
  by_cases digit : c.isDigit = true
  · rw [readToken_digit digit] at read ⊢
    obtain ⟨zs, front⟩ : d :: ds <:+ (Numeral.ofChars c (xs ++ d :: ds)).behind :=
      (left ▸ List.suffix_append ys _).trans (numeralStep_suffix read)
    rw [ofChars_other swaps front.symm]
    exact numeralStep_other swaps front.symm read left cs
  · have outcome := r.readToken_outcome c (xs ++ d :: ds)
    rw [read] at outcome
    rw [readToken]
    cases outcome with
    | @symbol _ _ rest found =>
      have left : rest = ys ++ d :: ds := left
      rw [left] at found
      rw [symbol_other swaps found]
      rfl
    | quote noSymbol quote =>
      have left : xs ++ d :: ds = ys ++ d :: ds := left
      rw [symbol_none.2 (symbol_none.1 noSymbol), List.append_cancel_right left]
      dsimp only
      rw [if_pos quote]
      rfl
    | word noSymbol noQuote letter written spelled =>
      subst written spelled
      obtain ⟨front, back⟩ := run_other swaps left
      rw [symbol_none.2 (symbol_none.1 noSymbol), front, back]
      dsimp only
      rw [if_neg noQuote, if_pos letter]
      rfl
    | range digit' | double digit' | integer digit' => exact absurd digit' digit

theorem next_other (swaps : Swaps d more) (read : r.next = .ok (some t) r') (whole : r.rest = xs ++ d :: ds)
    (left : r'.rest = ys ++ d :: ds) :
    (r.facing (xs ++ more)).next = .ok (some t) (r'.facing (ys ++ more)) := by
  have outcome := r.next_outcome
  rw [read] at outcome
  cases outcome with
  | waiting waits =>
    have same : xs ++ d :: ds = ys ++ d :: ds := whole.symm.trans left
    rw [List.append_cancel_right same]
    exact next_waiting waits
  | text idle inside read =>
    exact (next_inText (r := r.facing (xs ++ more)) idle inside).trans (readText_other read whole left more)
  | @token c cs _ idle code front read =>
    have passes := readToken_passes (r := r.skipBlanks) c cs
    rw [read] at passes
    obtain ⟨token, here, any, -⟩ := passes
    obtain ⟨_, token, rfl⟩ := List.exists_cons_of_ne_nil any
    rw [left, List.cons_append, ← List.append_assoc] at here
    obtain ⟨rfl, rfl⟩ := List.cons.inj here
    rw [whole, ← List.cons_append] at front
    obtain ⟨blanks, others⟩ := run_other swaps front
    have past : (r.facing (xs ++ more)).skipBlanks = r.skipBlanks.facing (c :: (token ++ ys) ++ more) := by
      rw [skipBlanks, skipBlanks, facing_rest, blanks, others, whole]
      rfl
    have stands := next_code (r := r.facing (xs ++ more)) idle code
    rw [past, facing_rest, List.cons_append] at stands
    rw [stands]
    exact readToken_other swaps read left _

end Reader

namespace Scanner

theorem Runs.other (swaps : Swaps d more) (runs : Runs s ts s') (whole : s.reader.rest = xs ++ d :: ds)
    (left : s'.reader.rest = ys ++ d :: ds) : Runs (s.facing (xs ++ more)) ts (s'.facing (ys ++ more)) := by
  induction runs generalizing xs with
  | refl =>
    rw [List.append_cancel_right (whole.symm.trans left)]
    exact .refl
  | @token s s' r t ts read others ih =>
    have same (cs : List Char) : behind s.segments t (r.facing cs) = (behind s.segments t r).facing cs := by
      unfold behind
      split <;> rfl
    obtain ⟨front, still, -⟩ := others.passes
    rw [left, ← List.append_assoc] at still
    have rest : r.rest = front ++ ys ++ d :: ds := by rw [← behind_rest s.segments t r, still]
    refine .token (next_other swaps read whole rest) ?_
    rw [show (s.facing (xs ++ more)).segments = s.segments from rfl, same]
    exact ih still left

end Scanner

end Frontend
