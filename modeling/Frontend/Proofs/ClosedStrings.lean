import Frontend.Proofs.Concatenation
import Frontend.Proofs.ListingLengths

-- A program leaves no string open.  A listing closes a string at the end of the input, with an empty token,
-- and a single expression may end in one.  A declaration may not: something always follows its last
-- expression.

namespace Frontend

open Grammar Surface Scanner Text

-- From one place in the tokens to another everything that is opened is closed again.
def Spans (stretch : Stretch) (ts rest : List Token) : Prop := ∃ us, ts = us ++ rest ∧ Bracketed stretch us

variable {stretch : Stretch} {ts us mid rest : List Token} {t opening text ending closing : Token} {kind : TokenKind}

namespace Spans

theorem refl : Spans stretch ts ts := ⟨[], rfl, .nil⟩

theorem trans (first : Spans stretch ts mid) (others : Spans stretch mid rest) : Spans stretch ts rest := by
  obtain ⟨us, rfl, nested⟩ := first
  obtain ⟨vs, rfl, nested'⟩ := others
  exact ⟨us ++ vs, (List.append_assoc ..).symm, nested.append nested'⟩

theorem token (same : t.kind = kind) (others : Spans .code ts rest) (plain : kind ∉ bracketKinds := by decide) :
    Spans .code (t :: ts) rest := by
  obtain ⟨us, rfl, nested⟩ := others
  exact ⟨t :: us, rfl, .token (same ▸ plain) nested⟩

theorem passes (plain : ∀ t ∈ us, t.kind ∉ bracketKinds) (others : Spans .code ts rest) :
    Spans .code (us ++ ts) rest := by
  induction us with
  | nil => exact others
  | cons t us ih =>
    obtain ⟨first, plain⟩ := List.forall_mem_cons.1 plain
    exact .token rfl (ih plain) first

theorem braces (opens : opening.kind = .leftBrace) (inner : Spans .code ts (closing :: mid))
    (closes : closing.kind = .rightBrace) : Spans .code (opening :: ts) mid := by
  obtain ⟨us, rfl, nested⟩ := inner
  exact ⟨opening :: us ++ [closing], by simp, .braces opens nested closes .nil⟩

theorem string (begins : opening.kind = .stringBegin) (pieces : Spans .pieces ts (text :: ending :: mid))
    (isText : text.kind = .stringText) (ends : ending.kind = .stringEnd) : Spans .code (opening :: ts) mid := by
  obtain ⟨us, rfl, nested⟩ := pieces
  exact ⟨opening :: us ++ [text, ending], by simp, .string begins nested isText ends .nil⟩

theorem segment (isText : text.kind = .stringText) (inner : Spans .code ts (closing :: mid))
    (closes : closing.kind = .rightBrace) : Spans .pieces (text :: ts) mid := by
  obtain ⟨us, rfl, nested⟩ := inner
  exact ⟨text :: us ++ [closing], by simp, .piece isText nested closes⟩

end Spans

theorem phraseKinds_plain : ∀ kind ∈ phraseKinds, kind ∉ bracketKinds := by decide

theorem Grammar.Phrased.plain (phrased : Phrased ts) : ∀ t ∈ ts, t.kind ∉ bracketKinds :=
  fun t within => phraseKinds_plain _ (phrased t within)

theorem Grammar.Writes.plain {op : BinaryOperator} {own : Nat} (writes : Writes kind op own) :
    kind ∉ bracketKinds := by
  have found := writes_iff.1 writes
  cases kind <;> first | decide | cases found

theorem literalKinds_plain : ∀ kind ∈ literalKinds, kind ∉ bracketKinds := by decide

-- The last text of a string is followed by its end, and is no whole piece.
def Covered : ExprPhrase → List Token → List Token → Prop
  | .pieces _, ts, rest => ∃ text ending, Spans .pieces ts (text :: ending :: rest) ∧
      text.kind = .stringText ∧ ending.kind = .stringEnd
  | _, ts, rest => Spans .code ts rest

theorem Grammar.Derives.covered {phrase : ExprPhrase} (derives : Derives phrase ts rest) :
    Covered phrase ts rest := by
  induction derives with
  | operand _ inner | unprefixed _ inner | single _ inner | plain _ inner | last _ inner => exact inner
  | binary _ _ writes _ left right => exact Spans.trans left (.token rfl right writes.plain)
  | not kind _ operand | negate kind _ operand => exact Spans.token kind operand
  | range _ points _ first last => exact Spans.trans first (.token points last)
  | member _ point named operand => exact Spans.trans operand (.token point (.token named .refl))
  | call _ opens _ closes callee args | element _ opens _ closes callee args =>
    exact Spans.trans callee (.token opens (Spans.trans args (.token closes .refl)))
  | literal kind _ => exact Spans.token rfl .refl (literalKinds_plain _ kind)
  | name named _ => exact Spans.token named .refl
  | generic named list => exact Spans.token named (.passes list.phrased.plain .refl)
  | group opens _ closes inner | list opens _ closes inner =>
    exact Spans.token opens (Spans.trans inner (.token closes .refl))
  | string opens text closes => exact Spans.string opens .refl text closes
  | interpolation begins text _ closes _ inner pieces =>
    obtain ⟨last, ending, pieces, isLast, ends⟩ := pieces
    exact Spans.string begins (.trans (.segment text inner closes) pieces) isLast ends
  | none => exact Spans.refl
  | more _ separates _ item items => exact Spans.trans item (.token separates items)
  | textEnd text closes => exact ⟨_, _, .refl, text, closes⟩
  | segment text _ closes _ inner pieces =>
    obtain ⟨last, ending, pieces, isLast, ends⟩ := pieces
    exact ⟨last, ending, .trans (.segment text inner closes) pieces, isLast, ends⟩

theorem Grammar.Derives.spans {e : Expr} {level : Nat} (derives : Derives (.infixed level e) ts rest) :
    Spans .code ts rest :=
  derives.covered

theorem Grammar.Introduces.plain {modifiers : Modifiers} (introduces : Introduces kind modifiers) :
    kind ∉ bracketKinds :=
  phraseKinds_plain _ introduces.phrased

theorem Grammar.Declares.spans {endings : Endings} {phrase : NodePhrase}
    (declares : Declares endings phrase ts rest) : Spans .code ts rest := by
  induction declares with
  | none | unended _ => exact .refl
  | more _ _ first others => exact first.trans others
  | enumeration enum named opens spells closes =>
    exact .token enum (.token named (.braces opens (.passes spells.phrased.plain .refl) closes))
  | bodiless introduces named generic constructs ends =>
    rw [List.append_assoc]
    exact .token introduces (.token named
      (.passes generic.phrased.plain (.passes constructs.phrased.plain (.token ends .refl))))
  | classDecl introduces named generic constructs opens _ closes body =>
    rw [List.append_assoc]
    exact .token introduces (.token named
      (.passes generic.phrased.plain (.passes constructs.phrased.plain (.braces opens body closes))))
  | binding introduces named annotates _ ending =>
    exact .token rfl (.token named (.passes annotates.phrased.plain ending)) introduces.plain
  | ret returns derives ends => exact .token returns (derives.spans.trans (.token ends .refl))
  | value assigns derives ends => exact .token assigns (derives.spans.trans (.token ends .refl))
  | computed gets assigns derives ends =>
    exact .token gets (.token assigns (derives.spans.trans (.token ends .refl)))
  | getter gets opens _ closes body => exact .token gets (.braces opens body closes)
  | typed ends => exact .token ends .refl

theorem Spans.nested (spans : Spans stretch ts []) : Bracketed stretch ts := by
  obtain ⟨us, rfl, nested⟩ := spans
  rwa [List.append_nil]

theorem Tiles.piece {before : Option TokenKind} {lo : Nat} {cs : List Char} (tiles : Tiles before lo cs ts) :
    ∀ t ∈ ts, ∃ front text back, cs = front ++ text ++ back ∧ t.Covers (lo + byteLength front) text := by
  induction tiles with
  | ended _ => exact List.forall_mem_nil _
  | @token before lo gap text rest t ts _ covers _ ih =>
    refine List.forall_mem_cons.2 ⟨⟨gap, text, rest, rfl, covers⟩, fun u among => ?_⟩
    obtain ⟨front, text', back, rfl, covers'⟩ := ih u among
    refine ⟨gap ++ text ++ front, text', back, by simp only [List.append_assoc], ?_⟩
    rw [byteLength_append, byteLength_append, ← Nat.add_assoc, ← Nat.add_assoc]
    exact covers'

-- The end of a string is a quote, if nothing ends with the input.
theorem quoted_end {source : String} (listed : tokensOf source = .ok ts) (closed : ∀ t ∈ ts.getLast?, ¬ t.Abrupt)
    (among : t ∈ ts) (ends : t.kind = .stringEnd) : t.text = "\"" := by
  obtain ⟨before, after, rfl⟩ := List.append_of_mem among
  have lists := tokensOf_ok.1 listed
  rw [List.map_append] at lists
  obtain ⟨s, runs, lists⟩ := lists.runs
  cases lists with
  | token read others =>
    rcases (runs.history (history_start source)).ending_next read ends with quote | ⟨empty, ended⟩
    · exact quote
    · have last : after = [] := List.map_eq_nil_iff.1 (others.unique ended)
      exact absurd ⟨ends, empty⟩ (closed t (by simp [last]))

theorem quote_covers {source : String} (listed : tokensOf source = .ok ts) (among : t ∈ ts) (quote : t.text = "\"") :
    ∃ front back, source.toList = front ++ '"' :: back ∧
      t.span = Span.ofBounds (byteLength front) (byteLength front + 1) := by
  have start : Laid 0 (Reader.ofSource source) none 0 source.toList :=
    .code rfl (List.forall_mem_nil _) (no_kind _) (no_kind _) .none
  obtain ⟨front, text, back, whole, covers⟩ := ((tokensOf_ok.1 listed).tiles start).piece t among
  have single : clamped text = ['"'] := by
    rw [← String.toList_ofList (l := clamped text), ← covers.text, quote]
    rfl
  obtain rfl := clamped_eq_singleton single
  rw [List.append_assoc] at whole
  exact ⟨front, back, whole, by rw [covers.span, Nat.zero_add]; rfl⟩

-- Every string ends in a quote of the source, and every segment in its brace.
structure StringsClosed (source : String) (tokens : List Token) : Prop where
  nested : Bracketed .code tokens
  quotes : ∀ t ∈ tokens, t.kind = .stringEnd → t.text = "\"" ∧ ∃ front back,
    source.toList = front ++ '"' :: back ∧ t.span = Span.ofBounds (byteLength front) (byteLength front + 1)
  -- A text belongs to a string that was begun before it.  What is not its last text goes on behind a segment, in the
  -- text that follows the brace of the segment at once.
  texts : ∀ before text after, tokens = before ++ text :: after → text.kind = .stringText →
    ∃ earlier opening pieces, before = earlier ++ opening :: pieces ∧ opening.kind = .stringBegin ∧
      Bracketed .pieces pieces ∧
      ((∃ ending rest, after = ending :: rest ∧ ending.kind = .stringEnd) ∨
        ∃ inner closing resumed rest, after = inner ++ closing :: resumed :: rest ∧ Bracketed .code inner ∧
          closing.kind = .rightBrace ∧ resumed.kind = .stringText ∧
          Bracketed .pieces (pieces ++ text :: inner ++ [closing]))

-- What is read as a program closes all its strings and segments.
--
-- The end that is found where the input is over never ends a string of a program, because a declaration has to go on
-- behind its last expression.
theorem program_strings_closed {source : String} {node : Node} (read : readProgram source = .ok node) :
    ∃ tokens, tokensOf source = .ok tokens ∧ StringsClosed source tokens := by
  obtain ⟨tokens, children, listed, -, declares⟩ := readProgram_declares read
  have nested := declares.spans.nested
  refine ⟨tokens, listed, nested, fun t among ends => ?_, fun before text after same isText => ?_⟩
  · have quote := quoted_end listed declares.closes among ends
    exact ⟨quote, quote_covers listed among quote⟩
  · have lists : Lists (ofSource source) ((before ++ text :: after).map .ok ++ []) := by
      rw [List.append_nil, ← same]
      exact tokensOf_ok.1 listed
    obtain ⟨_, earlier, opening, pieces, rfl, -, begins, whole⟩ := lists.inString isText
    have continues := nested.continues isText _ _ [] same nofun
    rw [List.append_nil] at continues
    refine ⟨earlier, opening, pieces, rfl, begins, whole, ?_⟩
    cases continues with
    | ends ending => exact .inl ⟨_, _, rfl, ending⟩
    | resumes inner closes resumed =>
      refine .inr ⟨_, _, _, _, rfl, inner, closes, resumed, ?_⟩
      rw [List.append_assoc]
      exact whole.append (.piece isText inner closes)

-- A string in a segment of a string, with an empty text at its start and at its end.
theorem string_in_segment_closed :
    let source := "var a = \"$\x7bf(\"y\")\x7d\";"
    ∃ node tokens, readProgram source = .ok node ∧ tokensOf source = .ok tokens ∧ tokens.length = 15 ∧
      StringsClosed source tokens := by
  intro source
  have accepted : (readProgram source).isOk = true := by decide +kernel
  have count : (tokensOf source).toOption.map List.length = some 15 := by decide +kernel
  cases read : readProgram source with
  | error e => rw [read] at accepted; cases accepted
  | ok node =>
    obtain ⟨tokens, listed, closed⟩ := program_strings_closed read
    rw [listed] at count
    exact ⟨node, tokens, rfl, listed, Option.some.inj count, closed⟩

-- Without a declaration around it, an expression may end in a string that the end of the input closes.
example : (readExpr "\"y").isOk = true ∧ (readProgram "var a = \"y").isOk = false := by decide +kernel

end Frontend
