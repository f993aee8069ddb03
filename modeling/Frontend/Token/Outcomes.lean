import Frontend.Token.Reader

-- What a step of a reader can come to.  There is one case for each way through the functions that read, with
-- what was found on that way.

namespace Frontend

open Text

-- Two characters make one symbol, or the first one is a symbol by itself.
theorem symbol_cases {c : Char} {cs text rest : List Char} {kind : TokenKind}
    (found : symbol? c cs = some (kind, text, rest)) :
    (∃ d, TokenKind.ofPair? c d = some kind ∧ text = [c, d] ∧ cs = d :: rest) ∨
      (∀ d ∈ cs.head?, TokenKind.ofPair? c d = none) ∧ TokenKind.ofSymbol? c = some kind ∧ text = [c] ∧
        cs = rest := by
  unfold symbol? at found
  split at found
  · obtain ⟨_, spelled, same⟩ := Option.map_eq_some_iff.1 found
    cases same
    exact .inr ⟨nofun, spelled, rfl, rfl⟩
  · next d ds =>
    split at found
    · next pair =>
      cases found
      exact .inl ⟨d, pair, rfl, rfl⟩
    · next noPair =>
      obtain ⟨_, spelled, same⟩ := Option.map_eq_some_iff.1 found
      cases same
      exact .inr ⟨by simpa using noPair, spelled, rfl, rfl⟩

theorem integerToken_eq_ok {lo : Nat} {digits : List Char} {t : Token} :
    integerToken lo digits = .ok t ↔ ∃ n, Value.integerOfDigits? (Double.digitsValue (clamped digits)) = some n ∧
      t = .ofChars .integer (some (.integer n)) lo digits := by
  unfold integerToken
  cases Value.integerOfDigits? (Double.digitsValue (clamped digits)) <;> simp [eq_comm]

theorem integerToken_eq_error {lo : Nat} {digits : List Char} {e : Located LexicalError} :
    integerToken lo digits = .error e ↔ Value.integerOfDigits? (Double.digitsValue (clamped digits)) = none ∧
      e = ⟨Span.ofBounds lo (lo + byteLength digits), .malformedNumber (String.ofList (clamped digits))⟩ := by
  unfold integerToken
  cases Value.integerOfDigits? (Double.digitsValue (clamped digits)) <;> simp [eq_comm]

-- The digits that a number starts with.
def Numeral.digits : Numeral → List Char
  | .integer digits _ => digits
  | .double whole _ _ => whole
  | .range digits _ => digits

theorem Numeral.ofChars_digits (c : Char) (cs : List Char) :
    (Numeral.ofChars c cs).digits = c :: cs.takeWhile Char.isDigit := by
  fun_cases Numeral.ofChars c cs <;> rfl

namespace Reader

-- Where a literal text stops.
inductive TextOutcome (r : Reader) (outer : List Mode) : Step (Option Token) → Prop where
  | unclosed {text : List Char} : splitText r.rest = (text, .endOfInput) →
      TextOutcome r outer (.ok
        (some (.ofChars .stringText (some (.string (String.ofList (clamped text)))) r.offset text))
        ⟨[], r.offset + byteLength text, outer,
          [.ofChars .stringEnd none (r.offset + byteLength text) []]⟩)
  | closed {text rest : List Char} : splitText r.rest = (text, .quote rest) →
      TextOutcome r outer (.ok
        (some (.ofChars .stringText (some (.string (String.ofList (clamped text)))) r.offset text))
        ⟨rest, r.offset + byteLength text + 1, outer,
          [.ofChars .stringEnd none (r.offset + byteLength text) ['"']]⟩)
  | segment {text rest : List Char} : splitText r.rest = (text, .segment rest) →
      TextOutcome r outer (.ok
        (some (.ofChars .stringText (some (.string (String.ofList (clamped text)))) r.offset text))
        ⟨rest, r.offset + byteLength text + 2, .code :: .text :: outer, []⟩)

theorem readText_outcome (r : Reader) (outer : List Mode) : TextOutcome r outer (r.readText outer) := by
  unfold readText
  rcases found : splitText r.rest with ⟨text, _ | rest | rest⟩
  · exact .unclosed found
  · exact .closed found
  · exact .segment found

-- Which bounds of a range there are, and which is too great.
inductive RangeOutcome (r : Reader) (digits rest : List Char) : Step (Option Token) → Prop where
  | leftGreat {e : Located LexicalError} : integerToken r.offset digits = .error e →
      RangeOutcome r digits rest (.error e (r.moveTo (byteLength digits) ('.' :: '.' :: rest)))
  | unbounded {left : Token} : integerToken r.offset digits = .ok left →
      rest.takeWhile Char.isDigit = [] →
      RangeOutcome r digits rest (.ok (some left)
        { r.moveTo (byteLength digits + 2) rest with
          deferred := [.ofChars .dotDot none (r.offset + byteLength digits) ['.', '.']] })
  | rightGreat {left : Token} {e : Located LexicalError} : integerToken r.offset digits = .ok left →
      rest.takeWhile Char.isDigit ≠ [] →
      integerToken (r.offset + byteLength digits + 2) (rest.takeWhile Char.isDigit) = .error e →
      RangeOutcome r digits rest (.error e
        { r.moveTo (byteLength digits + 2 + byteLength (rest.takeWhile Char.isDigit))
            (rest.dropWhile Char.isDigit) with
          deferred := [.ofChars .dotDot none (r.offset + byteLength digits) ['.', '.']] })
  | bounded {left right : Token} : integerToken r.offset digits = .ok left →
      rest.takeWhile Char.isDigit ≠ [] →
      integerToken (r.offset + byteLength digits + 2) (rest.takeWhile Char.isDigit) = .ok right →
      RangeOutcome r digits rest (.ok (some left)
        { r.moveTo (byteLength digits + 2 + byteLength (rest.takeWhile Char.isDigit))
            (rest.dropWhile Char.isDigit) with
          deferred := [.ofChars .dotDot none (r.offset + byteLength digits) ['.', '.'], right] })

theorem readRange_outcome (r : Reader) (digits rest : List Char) :
    RangeOutcome r digits rest (r.readRange digits rest) := by
  unfold readRange
  split
  · next great => exact .leftGreat great
  · next fits =>
    dsimp only
    split
    · next none => exact .unbounded fits none
    · next bound =>
      split
      · next great => exact .rightGreat fits bound great
      · next fits' => exact .bounded fits bound fits'

-- What a token can start with.
inductive TokenOutcome (r : Reader) (c : Char) (cs : List Char) : Step (Option Token) → Prop where
  | symbol {kind : TokenKind} {text rest : List Char} : symbol? c cs = some (kind, text, rest) →
      TokenOutcome r c cs
        (.ok (some (.ofChars kind none r.offset text)) (r.moveTo (byteLength text) rest))
  | quote : symbol? c cs = none → c = '"' →
      TokenOutcome r c cs (.ok (some (.ofChars .stringBegin none r.offset [c]))
        { r.moveTo (byteLength [c]) cs with modes := .text :: r.modes })
  | word {kind : TokenKind} {text : List Char} : symbol? c cs = none → c ≠ '"' →
      isAlphabetic c = true → text = c :: cs.takeWhile isAlphanumeric → kind = .ofWord (clamped text) →
      TokenOutcome r c cs (.ok (some (.ofChars kind (wordValue? kind) r.offset text))
        (r.moveTo (byteLength text) (cs.dropWhile isAlphanumeric)))
  | range {digits rest : List Char} {step : Step (Option Token)} : c.isDigit = true →
      Numeral.ofChars c cs = .range digits rest → r.readRange digits rest = step →
      TokenOutcome r c cs step
  | double {whole fraction rest : List Char} : c.isDigit = true →
      Numeral.ofChars c cs = .double whole fraction rest →
      TokenOutcome r c cs (.ok
        (some (.ofChars .double (some (doubleValue (clamped (whole ++ '.' :: fraction)))) r.offset
          (whole ++ '.' :: fraction)))
        (r.moveTo (byteLength (whole ++ '.' :: fraction)) rest))
  | integer {digits rest : List Char} {t : Token} : c.isDigit = true →
      Numeral.ofChars c cs = .integer digits rest → integerToken r.offset digits = .ok t →
      TokenOutcome r c cs (.ok (some t) (r.moveTo (byteLength digits) rest))
  | great {digits rest : List Char} {e : Located LexicalError} : c.isDigit = true →
      Numeral.ofChars c cs = .integer digits rest → integerToken r.offset digits = .error e →
      TokenOutcome r c cs (.error e (r.moveTo (byteLength digits) rest))
  | unexpected : symbol? c cs = none → c ≠ '"' → isAlphabetic c = false → c.isDigit = false →
      TokenOutcome r c cs (.error
        ⟨Span.ofBounds r.offset (r.offset + c.utf8Size), .unexpectedChar c⟩
        (r.moveTo (byteLength [c]) cs))

theorem readToken_outcome (r : Reader) (c : Char) (cs : List Char) :
    TokenOutcome r c cs (r.readToken c cs) := by
  unfold readToken
  split
  · next found => exact .symbol found
  · next noSymbol =>
    split
    · next quote => exact .quote noSymbol quote
    · next noQuote =>
      split
      · next letter => exact .word noSymbol noQuote letter rfl rfl
      · next noLetter =>
        split
        · next digit =>
          split
          · next found => exact .range digit found rfl
          · next found => exact .double digit found
          · next found =>
            split
            · next fits => exact .integer digit found fits
            · next great => exact .great digit found great
        · next noDigit =>
          exact .unexpected noSymbol noQuote (Bool.eq_false_iff.2 noLetter) (Bool.eq_false_iff.2 noDigit)

-- Where the next token comes from.
inductive Outcome (r : Reader) : Step (Option Token) → Prop where
  | waiting {t : Token} {queue : List Token} : r.deferred = t :: queue →
      Outcome r (.ok (some t) { r with deferred := queue })
  | text {outer : List Mode} {step : Step (Option Token)} : r.deferred = [] →
      r.modes = .text :: outer → r.readText outer = step → Outcome r step
  | ended : r.deferred = [] → (∀ outer, r.modes ≠ .text :: outer) → r.rest.dropWhile isBlank = [] →
      Outcome r (.ok none r.skipBlanks)
  | token {c : Char} {cs : List Char} {step : Step (Option Token)} : r.deferred = [] →
      (∀ outer, r.modes ≠ .text :: outer) → r.rest.dropWhile isBlank = c :: cs →
      r.skipBlanks.readToken c cs = step → Outcome r step

theorem next_outcome (r : Reader) : Outcome r r.next := by
  unfold next
  split
  · next waits => exact .waiting waits
  · next idle =>
    split
    · next inside => exact .text idle inside rfl
    · next code =>
      dsimp only
      split
      · next empty => exact .ended idle code empty
      · next front => exact .token idle code front rfl

variable {r : Reader}

theorem next_waiting {t : Token} {queue : List Token} (waits : r.deferred = t :: queue) :
    r.next = .ok (some t) { r with deferred := queue } := by
  rw [next, waits]

theorem next_inText {outer : List Mode} (idle : r.deferred = []) (inside : r.modes = .text :: outer) :
    r.next = r.readText outer := by
  rw [next, idle, inside]

theorem next_code (idle : r.deferred = []) (code : ∀ outer, r.modes ≠ .text :: outer) :
    r.next = match r.skipBlanks.rest with
      | [] => .ok none r.skipBlanks
      | c :: cs => r.skipBlanks.readToken c cs := by
  unfold next
  rw [idle]
  dsimp only
  split
  · next inside => exact absurd inside (code _)
  · rfl

end Reader

end Frontend
