import Frontend.Proofs.SourceTiling

-- A blank between two sources.  Where no string is open, nothing that is read in front of a blank reaches
-- beyond it.  So what stands behind the blank is listed as it is on its own, moved by the bytes in front of
-- it.

namespace Frontend

open Reader Scanner Grammar Text

variable {r r' : Reader} {t : Token} {ts : List Token} {c : Char} {answers : List Answer}

def quoteKinds : List TokenKind := [.stringBegin, .stringText, .stringEnd]

-- In code outside of all segments, with no quote ahead.
structure Reader.Unquoted (r : Reader) : Prop where
  outside : r.modes = []
  waiting : ∀ t ∈ r.deferred, InRange t
  noQuote : '"' ∉ r.rest

def NoBegin : Step (Option Token) → Prop
  | .ok (some t) _ => t.kind ≠ .stringBegin
  | _ => True

theorem readRange_noBegin (digits rest : List Char) : NoBegin (r.readRange digits rest) := by
  have outcome := r.readRange_outcome digits rest
  generalize r.readRange digits rest = step at outcome ⊢
  cases outcome with
  | leftGreat | rightGreat => trivial
  | unbounded fits | bounded fits =>
    rw [NoBegin, integerToken_kind fits]
    decide

-- Only a quote opens a string.
theorem readToken_noBegin (noQuote : c ≠ '"') (cs : List Char) : NoBegin (r.readToken c cs) := by
  have outcome := r.readToken_outcome c cs
  generalize r.readToken c cs = step at outcome ⊢
  cases outcome with
  | symbol found => exact (symbol_plain found).1
  | quote _ quote => exact absurd quote noQuote
  | word _ _ _ _ spelled => exact spelled ▸ (ofWord_inert _).1.1
  | range _ _ read => exact read ▸ readRange_noBegin _ _
  | double => exact TokenKind.noConfusion
  | integer _ _ fits =>
    rw [NoBegin, integerToken_kind fits]
    decide
  | great | unexpected => trivial

theorem next_noBegin (plain : r.Plain 0) (noQuote : '"' ∉ r.rest) : NoBegin r.next := by
  have outcome := r.next_outcome
  generalize r.next = step at outcome ⊢
  cases outcome with
  | waiting waits => cases plain.idle.symm.trans waits
  | text _ inside => exact absurd (plain.modes.symm.trans inside) (noText_modesOf _ _)
  | ended => trivial
  | token _ _ front read =>
    refine read ▸ readToken_noBegin ?_ _
    rintro rfl
    have within : '"' ∈ r.rest.dropWhile isBlank := by
      rw [front]
      exact List.mem_cons_self
    exact noQuote ((List.dropWhile_sublist _).subset within)

theorem behind_code {depth : Nat} {kind : TokenKind} (noBegin : kind ≠ .stringBegin) (noText : kind ≠ .stringText)
    (behind : Behind depth kind r) : r.InCode depth := by
  cases kind <;> first | exact behind | exact Plain.inCode behind | contradiction

theorem Queued.suffix {offset lo : Nat} {rest cs : List Char} (queued : Queued offset rest lo cs ts) :
    rest <:+ cs := by
  induction queued with
  | none => exact List.suffix_rfl
  | token _ _ ih => exact ih.trans (List.suffix_append _ _)

theorem Reader.Unquoted.next (unquoted : r.Unquoted) (read : r.next = .ok (some t) r') :
    t.kind ∉ quoteKinds ∧ r'.Unquoted := by
  cases waits : r.deferred with
  | cons u queue =>
    cases (next_waiting waits).symm.trans read
    have waiting := unquoted.waiting
    rw [waits] at waiting
    obtain ⟨range, others⟩ := List.forall_mem_cons.1 waiting
    refine ⟨?_, unquoted.outside, others, unquoted.noQuote⟩
    rcases range with kind | kind <;> rw [kind] <;> decide
  | nil =>
    have plain : r.Plain 0 := ⟨unquoted.outside, waits⟩
    have opening := next_noBegin plain unquoted.noQuote
    have step := next_plain plain
    rw [read] at opening step
    have noBegin : t.kind ≠ .stringBegin := opening
    obtain ⟨noText, noEnd, behind⟩ := step
    obtain ⟨blanks, cs, text, rest, front, -, cuts⟩ := next_cuts plain read
    have left : r'.rest <:+ r.rest := by
      rw [front, cuts.whole]
      exact cuts.queued.suffix.trans ((List.suffix_append _ _).trans (List.suffix_append _ _))
    exact ⟨by simp [quoteKinds, noBegin, noText, noEnd], (behind_code noBegin noText behind).modes, cuts.waiting,
      fun quote => unquoted.noQuote (left.subset quote)⟩

namespace Scanner

theorem Lists.unquoted {s : Scanner} (lists : Lists s answers) (unquoted : s.reader.Unquoted)
    (outside : s.segments = []) : ∀ t, .ok t ∈ answers → t.kind ∉ quoteKinds := by
  induction lists with
  | ended _ | fault _ => simp
  | token read _ ih =>
    obtain ⟨kind, later⟩ := unquoted.next read
    have noText : ∀ {t : Token}, t.kind ∉ quoteKinds → t.kind ≠ .stringText := fun other text =>
      other (by rw [text]; decide)
    rw [outside, behind_nil (noText kind)] at ih
    simpa using ⟨kind, ih later rfl⟩

end Scanner

theorem tokensOf_unquoted {source : String} (noQuote : '"' ∉ source.toList) (listed : tokensOf source = .ok ts) :
    ∀ t ∈ ts, t.kind ∉ quoteKinds := by
  have unquoted := (tokensOf_ok.1 listed).unquoted ⟨rfl, List.forall_mem_nil _, noQuote⟩ rfl
  simpa using unquoted

theorem walks_unquoted (unquoted : ∀ t ∈ ts, t.kind ∉ quoteKinds) : Walks True 0 ts := by
  induction ts with
  | nil => exact .done
  | cons t ts ih =>
    obtain ⟨first, others⟩ := List.forall_mem_cons.1 unquoted
    exact .outside trivial (fun text => first (by rw [text]; decide)) (ih others)

theorem lists_separated {a b joined : String} {d : Char} (blank : isBlank d = true) (noQuote : '"' ∉ a.toList)
    (whole : joined.toList = a.toList ++ d :: b.toList) (listed : tokensOf a = .ok ts)
    (others : Lists (ofSource b) answers) :
    Lists (ofSource joined) (ts.map .ok ++ answers.map (shiftOutcome (a.utf8ByteSize + d.utf8Size))) := by
  have unquoted := tokensOf_unquoted noQuote listed
  refine lists_joined blank whole listed (walks_unquoted unquoted) (fun t last abrupt => ?_) others
  have kind := unquoted t (List.mem_of_getLast? last)
  rw [abrupt.1] at kind
  exact kind (by decide)

-- A blank outside of strings separates: the tokens of the source are those in front of it and those behind it, and
-- an error on either side is the error of the whole.
theorem tokensOf_separated {a : String} {d : Char} (noQuote : '"' ∉ a.toList) (blank : isBlank d = true) (b : String) :
    tokensOf (a ++ String.singleton d ++ b) =
      match tokensOf a, tokensOf b with
      | .error e, _ => .error e
      | .ok _, .error e => .error (e.shift (a ++ String.singleton d).utf8ByteSize)
      | .ok ts, .ok us => .ok (ts ++ us.map (Token.shift (a ++ String.singleton d).utf8ByteSize)) := by
  have whole : (a ++ String.singleton d ++ b).toList = a.toList ++ d :: b.toList := by simp
  have size : (a ++ String.singleton d).utf8ByteSize = a.utf8ByteSize + d.utf8Size := by
    rw [← byteLength_toList, String.toList_append, byteLength_append, byteLength_toList]
    simp
  rw [size]
  cases first : tokensOf a with
  | error e =>
    obtain ⟨ts, failed⟩ := tokensOf_error.1 first
    exact tokensOf_error.2 ⟨ts, lists_faulty (blank_stops blank) whole failed⟩
  | ok ts =>
    cases second : tokensOf b with
    | error e =>
      obtain ⟨us, failed⟩ := tokensOf_error.1 second
      have lists := lists_separated blank noQuote whole first failed
      rw [List.map_append, List.map_map, ← List.append_assoc] at lists
      refine tokensOf_error.2 ⟨ts ++ us.map (Token.shift (a.utf8ByteSize + d.utf8Size)), ?_⟩
      rw [List.map_append, List.map_map]
      exact lists
    | ok us =>
      have lists := lists_separated blank noQuote whole first (tokensOf_ok.1 second)
      rw [List.map_map] at lists
      refine tokensOf_ok.2 ?_
      rw [List.map_append, List.map_map]
      exact lists

-- The points at the end of the first source do not become a range with the digit behind the blank, which has three
-- bytes.
theorem points_separated :
    let a := "x = 1.."
    let b := "5 + \"$\x7by\x7d\""
    '"' ∉ a.toList ∧ isBlank '\u2003' = true ∧ ∃ ts us, tokensOf a = .ok ts ∧ ts.length = 4 ∧ tokensOf b = .ok us ∧
      us.length = 8 ∧ tokensOf (a ++ String.singleton '\u2003' ++ b) = .ok (ts ++ us.map (Token.shift 10)) := by
  intro a b
  have noQuote : '"' ∉ a.toList := by decide
  have blank : isBlank '\u2003' = true := by decide
  have count : (tokensOf a).toOption.map List.length = some 4 := by decide +kernel
  have count' : (tokensOf b).toOption.map List.length = some 8 := by decide +kernel
  have both := tokensOf_separated noQuote blank b
  cases first : tokensOf a with
  | error e => rw [first] at count; cases count
  | ok ts =>
    cases second : tokensOf b with
    | error e => rw [second] at count'; cases count'
    | ok us =>
      rw [first] at count
      rw [second] at count'
      rw [first, second] at both
      exact ⟨noQuote, blank, ts, us, rfl, Option.some.inj count, rfl, Option.some.inj count', both⟩

end Frontend
