import Frontend.Proofs.Scanning

-- How the tokens of a source come to be, and that what a token is worth is told by its kind and its text.

namespace Frontend

open Reader Text

def spelledValue : TokenKind → List Char → Option Value
  | .integer, text => (Value.integerOfDigits? (Double.digitsValue text)).map .integer
  | .double, text => some (doubleValue text)
  | .stringText, text => some (.string (String.ofList text))
  | kind, _ => wordValue? kind

def Token.Spelled (t : Token) : Prop := t.value = spelledValue t.kind t.text.toList

-- Tokens of one kind and one text are worth the same.
theorem Token.Spelled.value_eq {t u : Token} (left : t.Spelled) (right : u.Spelled)
    (kind : t.kind = u.kind) (text : t.text = u.text) : t.value = u.value := by
  rw [Token.Spelled] at left right
  rw [left, right, kind, text]

inductive Token.Made : Token → Prop where
  | symbol {c : Char} {cs text rest : List Char} {kind : TokenKind} {lo : Nat} :
      symbol? c cs = some (kind, text, rest) → Made (.ofChars kind none lo text)
  | word {c : Char} {cs : List Char} {lo : Nat} : isAlphabetic c = true →
      (∀ d ∈ cs, isAlphanumeric d = true) →
      Made (.ofChars (.ofWord (clamped (c :: cs))) (wordValue? (.ofWord (clamped (c :: cs)))) lo (c :: cs))
  | integer {digits : List Char} {n : Int64} {lo : Nat} :
      Value.integerOfDigits? (Double.digitsValue (clamped digits)) = some n →
      Made (.ofChars .integer (some (.integer n)) lo digits)
  | double {text : List Char} {lo : Nat} : Made (.ofChars .double (some (doubleValue (clamped text))) lo text)
  | text {text : List Char} {lo : Nat} :
      Made (.ofChars .stringText (some (.string (String.ofList (clamped text)))) lo text)
  -- The points of a range, and the ends of a string.
  | mark {kind : TokenKind} {text : List Char} {lo : Nat} :
      kind ∈ [.dotDot, .stringBegin, .stringEnd] → Made (.ofChars kind none lo text)

theorem integerToken_made {lo : Nat} {digits : List Char} {t : Token}
    (fits : integerToken lo digits = .ok t) : t.Made := by
  obtain ⟨n, worth, rfl⟩ := integerToken_eq_ok.1 fits
  exact .integer worth

def Waiting (r : Reader) : Prop := ∀ t ∈ r.deferred, t.Made

-- The token that comes next, and every token found along with it.
def MadeStep : Step (Option Token) → Prop
  | .ok (some t) r => t.Made ∧ Waiting r
  | _ => True

variable {r : Reader}

theorem readText_made (outer : List Mode) : MadeStep (r.readText outer) := by
  have ending (lo : Nat) (text : List Char) :
      ∀ t ∈ [Token.ofChars .stringEnd none lo text], t.Made := by
    exact List.forall_mem_singleton.2 (.mark (by decide))
  have outcome := r.readText_outcome outer
  generalize r.readText outer = step at outcome ⊢
  cases outcome with
  | unclosed | closed => exact ⟨.text, ending _ _⟩
  | segment => exact ⟨.text, nofun⟩

theorem readRange_made (digits rest : List Char) : MadeStep (r.readRange digits rest) := by
  have points (lo : Nat) : (Token.ofChars .dotDot none lo ['.', '.']).Made := .mark (by decide)
  have outcome := r.readRange_outcome digits rest
  generalize r.readRange digits rest = step at outcome ⊢
  cases outcome with
  | leftGreat | rightGreat => trivial
  | unbounded fits => exact ⟨integerToken_made fits, List.forall_mem_singleton.2 (points _)⟩
  | bounded fits _ fits' =>
    exact ⟨integerToken_made fits,
      List.forall_mem_cons.2 ⟨points _, List.forall_mem_singleton.2 (integerToken_made fits')⟩⟩

theorem readToken_made (c : Char) (cs : List Char) (waiting : Waiting r) :
    MadeStep (r.readToken c cs) := by
  have outcome := r.readToken_outcome c cs
  generalize r.readToken c cs = step at outcome ⊢
  cases outcome with
  | symbol found => exact ⟨.symbol found, waiting⟩
  | quote => exact ⟨.mark (by decide), waiting⟩
  | word _ _ letter written spelled =>
    subst written spelled
    exact ⟨.word letter (List.all_eq_true.1 List.all_takeWhile), waiting⟩
  | range _ _ read => exact read ▸ readRange_made _ _
  | double _ _ => exact ⟨.double, waiting⟩
  | integer _ _ fits => exact ⟨integerToken_made fits, waiting⟩
  | great | unexpected => trivial

theorem next_made (waiting : Waiting r) : MadeStep r.next := by
  have outcome := r.next_outcome
  generalize r.next = step at outcome ⊢
  cases outcome with
  | waiting waits =>
    rw [Waiting, waits] at waiting
    exact List.forall_mem_cons.1 waiting
  | text _ _ read => exact read ▸ readText_made _
  | ended => trivial
  | token _ _ _ read => exact read ▸ readToken_made _ _ waiting

namespace Scanner

variable {s s' : Scanner} {segments : List Nat} {t : Token} {ts : List Token}

theorem Lists.made {answers : List Answer} (lists : Lists s answers) (waiting : Waiting s.reader) :
    ∀ t, .ok t ∈ answers → t.Made := by
  induction lists with
  | ended _ | fault _ => simp
  | token read _ ih =>
    have step := next_made waiting
    rw [read] at step
    have others := ih (by rw [Waiting, behind_deferred]; exact step.2)
    simpa using ⟨step.1, others⟩

end Scanner

theorem tokensOf_made {source : String} {ts : List Token} (listed : tokensOf source = .ok ts) :
    ∀ t ∈ ts, t.Made := by
  have made := (tokensOf_ok.1 listed).made nofun
  simpa using made

def symbolKinds : List TokenKind :=
  [.plus, .minus, .star, .slash, .bang, .assign, .equal, .notEqual, .less, .lessEqual, .greater,
    .greaterEqual, .colon, .semicolon, .comma, .dot, .dotDot, .leftParen, .rightParen, .leftBracket,
    .rightBracket, .leftBrace, .rightBrace]

theorem symbol_kind {c : Char} {cs : List Char} {kind : TokenKind} {text rest : List Char}
    (found : symbol? c cs = some (kind, text, rest)) : kind ∈ symbolKinds := by
  have single {kind : TokenKind} (spelled : TokenKind.ofSymbol? c = some kind) : kind ∈ symbolKinds := by
    unfold TokenKind.ofSymbol? at spelled
    split at spelled <;> cases spelled <;> decide
  have pair {kind : TokenKind} {d : Char} (spelled : TokenKind.ofPair? c d = some kind) :
      kind ∈ symbolKinds := by
    unfold TokenKind.ofPair? at spelled
    split at spelled <;> cases spelled <;> decide
  rcases symbol_cases found with ⟨d, spelled, -⟩ | ⟨-, spelled, -⟩
  · exact pair spelled
  · exact single spelled

theorem symbol_worthless {kind : TokenKind} (symbol : kind ∈ symbolKinds) (text : List Char) :
    spelledValue kind text = none := by
  have none_ : ∀ kind ∈ symbolKinds, wordValue? kind = none := by decide
  rw [← none_ kind symbol]
  cases kind <;> first | rfl | exact absurd symbol (by decide)

theorem word_worth (word : List Char) :
    wordValue? (TokenKind.ofWord word) = spelledValue (TokenKind.ofWord word) word := by
  unfold TokenKind.ofWord
  repeat' split
  all_goals rfl

theorem Token.Made.spelled {t : Token} (made : t.Made) : t.Spelled := by
  have ofChars {kind : TokenKind} {value : Option Value} {lo : Nat} {text : List Char}
      (worth : value = spelledValue kind (clamped text)) : (Token.ofChars kind value lo text).Spelled := by
    rw [Token.Spelled, Token.ofChars, String.toList_ofList]
    exact worth
  cases made with
  | symbol found => exact ofChars (symbol_worthless (symbol_kind found) _).symm
  | word _ _ => exact ofChars (word_worth _)
  | integer worth => exact ofChars (by rw [spelledValue, worth, Option.map_some])
  | double | text => exact ofChars rfl
  | mark listed =>
    refine ofChars ?_
    simp only [List.mem_cons, List.not_mem_nil, or_false] at listed
    rcases listed with rfl | rfl | rfl <;> rfl

theorem tokensOf_spelled {source : String} {ts : List Token} (listed : tokensOf source = .ok ts) :
    ∀ t ∈ ts, t.Spelled :=
  fun t within => (tokensOf_made listed t within).spelled

end Frontend
