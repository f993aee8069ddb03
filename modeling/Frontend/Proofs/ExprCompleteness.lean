import Frontend.Proofs.ExprGrammar

-- What is derived is read.  A phrase that can grow by what stands behind it is read up to where it goes on:
-- behind an operand the operators are still to be applied, and behind a primary the suffixes.

namespace Frontend.Grammar

open Surface TokenSource Feed

-- What a token of this kind could not be added to: neither a suffix nor the points of a range.
def Ends (kind : TokenKind) : Prop :=
  kind ≠ .dot ∧ kind ≠ .leftParen ∧ kind ≠ .leftBracket ∧ kind ≠ .dotDot

instance (kind : TokenKind) : Decidable (Ends kind) := inferInstanceAs (Decidable (_ ∧ _ ∧ _ ∧ _))

-- A token of this kind does not go on inside an operand of the given level.
def Leaves (level : Nat) (kind : TokenKind) : Prop :=
  Ends kind ∧ Below (level + 1) kind

-- The rule for the phrase reads it off the tokens, or comes to where the phrase can still grow.
def Complete (eof : Span) : ExprPhrase → List Token → List Token → Prop
  | .infixed level e, ts, rest => Next (Leaves level) rest → ∀ l ≤ level,
      exprFrom l eof (feedOf ts) = operations exprFrom l e eof (feedOf rest)
  | .prefixed e, ts, rest => Next Ends rest → prefixed expr eof (feedOf ts) = .ok e (feedOf rest)
  | .ranged e, ts, rest => Next Ends rest → rangeExpr expr eof (feedOf ts) = .ok e (feedOf rest)
  | .postfixed e, ts, rest => postfixed expr eof (feedOf ts) = suffixes expr e eof (feedOf rest)
  | .primary e, ts, rest => primary expr eof (feedOf ts) = .ok e (feedOf rest)
  | .items es, ts, rest => ∀ close ∈ [TokenKind.rightParen, .rightBracket], ∀ t others,
      rest = t :: others → t.kind = close →
      itemsUntil close expr eof (feedOf ts) = .ok es (feedOf rest)
  | .pieces parts, ts, rest => ∃ segmented,
      stringParts expr eof (feedOf ts) = .ok (parts, segmented) (feedOf rest)

def primaryKinds : List TokenKind :=
  literalKinds ++ [.identifier, .leftParen, .leftBracket, .stringBegin]

def Starts : ExprPhrase → List Token → Prop
  | .infixed _ _, ts | .prefixed _, ts =>
    ∃ t others, ts = t :: others ∧ t.kind ∈ .bang :: .minus :: primaryKinds
  | .ranged _, ts | .postfixed _, ts | .primary _, ts =>
    ∃ t others, ts = t :: others ∧ t.kind ∈ primaryKinds
  | .items _, _ | .pieces _, _ => True

theorem Derives.starts {phrase : ExprPhrase} {ts rest : List Token}
    (derives : Derives phrase ts rest) : Starts phrase ts := by
  induction derives with
  | operand _ start | single _ start | range _ _ _ start _ | plain _ start | member _ _ _ start
  | call _ _ _ _ start _ | element _ _ _ _ start _ | binary _ _ _ _ start _ => exact start
  | unprefixed _ start =>
    obtain ⟨t, others, same, within⟩ := start
    exact ⟨t, others, same, List.mem_cons_of_mem _ (List.mem_cons_of_mem _ within)⟩
  | not kind _ _ | negate kind _ _ => exact ⟨_, _, rfl, by rw [kind]; decide⟩
  | literal kind _ => exact ⟨_, _, rfl, List.mem_append_left _ kind⟩
  | name kind _ | generic kind _ | group kind _ _ _ | list kind _ _ _ | string kind _ _
  | interpolation kind _ _ _ _ _ _ => exact ⟨_, _, rfl, by rw [kind]; decide⟩
  | none | last _ _ | more _ _ _ _ _ | textEnd _ _ | segment _ _ _ _ _ _ => trivial

-- No phrase starts with the end of a string, nor with the end of a list.
theorem Derives.next_start {level : Nat} {e : Expr} {ts rest : List Token}
    (derives : Derives (.infixed level e) ts rest) {kind : TokenKind}
    (other : kind ∉ .bang :: .minus :: primaryKinds) : Next (· ≠ kind) ts := by
  obtain ⟨t, others, rfl, within⟩ := derives.starts
  apply Next.cons
  intro same
  exact other (same ▸ within)

section Operators

variable {eof : Span} {level own l : Nat} {op : BinaryOperator} {lhs rhs e : Expr} {t : Token}
  {ts mid rest : List Token}

theorem operations_stop (lower : Next (Below level) ts) :
    operations exprFrom level lhs eof (feedOf ts) = .ok lhs (feedOf ts) := by
  rw [operations_eq, operationStep, bind_ok (currentKind_tokens ts)]
  cases found : (ts.head?.map Token.kind).bind binaryOperator? with
  | none => rfl
  | some operator =>
    obtain ⟨op, own⟩ := operator
    cases ts with
    | nil => cases found
    | cons t ts =>
      have small : own < level := lower t rfl op own (writes_iff.2 found)
      dsimp only
      rw [if_pos small]
      rfl

theorem operations_go (writes : Writes t.kind op own) (high : level ≤ own)
    (operand : exprFrom (own + 1) eof (feedOf mid) = .ok rhs (feedOf rest)) :
    operations exprFrom level lhs eof (feedOf (t :: mid)) =
      operations exprFrom level (.binary op lhs rhs) eof (feedOf rest) := by
  have found : (some t.kind).bind binaryOperator? = some (op, own) := writes_iff.1 writes
  rw [operations_eq, operationStep, bind_ok (currentKind_tokens _), List.head?_cons, Option.map_some,
    found]
  dsimp only
  rw [if_neg (Nat.not_lt.2 high), bind_ok advance_tokens, bind_ok operand]

theorem exprFrom_operand (read : prefixed expr eof (feedOf ts) = .ok e (feedOf rest)) :
    exprFrom l eof (feedOf ts) = operations exprFrom l e eof (feedOf rest) := by
  rw [exprFrom_eq, exprStep]
  exact bind_ok read

theorem Complete.operand (read : Complete eof (.prefixed e) ts rest) :
    Complete eof (.infixed level e) ts rest :=
  fun leaves _ _ => exprFrom_operand (read fun t next => (leaves t next).1)

-- An operator is no suffix, and has one level.
theorem Writes.leaves (writes : Writes t.kind op own) : Leaves own t.kind := by
  have found := writes_iff.1 writes
  refine ⟨?_, fun op' own' writes' => ?_⟩
  · revert found
    cases t.kind <;> first | exact fun _ => by decide | exact nofun
  · rw [writes'.same_level writes]
    exact Nat.lt_succ_self own

theorem Complete.binary (low : level ≤ own) (left : Complete eof (.infixed own lhs) ts (t :: mid))
    (writes : Writes t.kind op own) (right : Complete eof (.infixed (own + 1) rhs) mid rest) :
    Complete eof (.infixed level (.binary op lhs rhs)) ts rest := by
  intro leaves l below
  have higher : Next (Leaves (own + 1)) rest := fun u next =>
    ⟨(leaves u next).1, (leaves u next).2.raise (by omega)⟩
  have operand : exprFrom (own + 1) eof (feedOf mid) = .ok rhs (feedOf rest) := by
    rw [right higher (own + 1) (Nat.le_refl _)]
    exact operations_stop fun u next => (leaves u next).2.raise (by omega)
  rw [left (.cons writes.leaves) l (Nat.le_trans below low)]
  exact operations_go writes (Nat.le_trans below low) operand

theorem Complete.unary (read : Complete eof (.prefixed e) ts rest) {kind : TokenKind} {op : UnaryOperator}
    (found : t.kind = kind) (written : kind = .bang ∧ op = .not ∨ kind = .minus ∧ op = .negate) :
    Complete eof (.prefixed (.unary op e)) (t :: ts) rest := by
  intro ends
  have operand := read ends
  rw [prefixed_eq, prefixStep]
  rcases written with ⟨rfl, rfl⟩ | ⟨rfl, rfl⟩
  · rw [bind_ok (accept_tokens found)]
    dsimp only
    rw [bind_ok operand]
    rfl
  · have other : Next (· ≠ .bang) (t :: ts) := .cons (by rw [found]; decide)
    rw [bind_ok (accept_next other)]
    dsimp only
    rw [bind_ok (accept_tokens found)]
    dsimp only
    rw [bind_ok operand]
    rfl

theorem Complete.unprefixed (derives : Derives (.ranged e) ts rest)
    (read : Complete eof (.ranged e) ts rest) : Complete eof (.prefixed e) ts rest := by
  intro ends
  obtain ⟨t, others, rfl, within⟩ := derives.starts
  have other {kind : TokenKind} (absent : kind ∉ primaryKinds) : Next (· ≠ kind) (t :: others) := by
    apply Next.cons
    intro same
    exact absent (same ▸ within)
  rw [prefixed_eq, prefixStep, bind_ok (accept_next (other (by decide)))]
  dsimp only
  rw [bind_ok (accept_next (other (by decide)))]
  exact read ends

end Operators

section Suffixes

variable {eof : Span} {e first last : Expr} {args : List Expr} {t opening closing dot id : Token}
  {ts mid rest : List Token}

theorem suffixes_stop (ends : Next Ends ts) : suffixes expr e eof (feedOf ts) = .ok e (feedOf ts) := by
  rw [suffixes_eq, suffixStep, bind_ok (currentKind_tokens ts)]
  cases ts with
  | nil => rfl
  | cons t ts =>
    obtain ⟨noDot, noParen, noBracket, -⟩ := ends t rfl
    rw [List.head?_cons, Option.map_some]
    cases kind : t.kind <;> first | rfl | contradiction

theorem Complete.plain (read : Complete eof (.primary e) ts rest) : Complete eof (.postfixed e) ts rest :=
  bind_ok read

theorem Complete.member (read : Complete eof (.postfixed e) ts (dot :: id :: rest))
    (isDot : dot.kind = .dot) (named : id.kind = .identifier) :
    Complete eof (.postfixed (e.memberOf id.text)) ts rest := by
  refine Eq.trans read ?_
  rw [suffixes_eq, suffixStep, bind_ok (currentKind_tokens _), List.head?_cons, Option.map_some, isDot]
  dsimp only
  rw [bind_ok advance_tokens, bind_ok (identifier_tokens named)]

theorem Complete.call (read : Complete eof (.postfixed e) ts (opening :: mid))
    (opens : opening.kind = .leftParen) (items : Complete eof (.items args) mid (closing :: rest))
    (closes : closing.kind = .rightParen) : Complete eof (.postfixed (.call e args)) ts rest := by
  refine Eq.trans read ?_
  rw [suffixes_eq, suffixStep, bind_ok (currentKind_tokens _), List.head?_cons, Option.map_some, opens]
  dsimp only
  rw [bind_ok advance_tokens, bind_ok (items .rightParen (by decide) _ _ rfl closes),
    bind_ok (expect_tokens closes)]

theorem Complete.element (read : Complete eof (.postfixed e) ts (opening :: mid))
    (opens : opening.kind = .leftBracket) (items : Complete eof (.items args) mid (closing :: rest))
    (closes : closing.kind = .rightBracket) : Complete eof (.postfixed (e.elementOf args)) ts rest := by
  refine Eq.trans read ?_
  rw [suffixes_eq, suffixStep, bind_ok (currentKind_tokens _), List.head?_cons, Option.map_some, opens]
  dsimp only
  rw [bind_ok advance_tokens, bind_ok (items .rightBracket (by decide) _ _ rfl closes),
    bind_ok (expect_tokens closes)]

theorem Complete.single (read : Complete eof (.postfixed e) ts rest) : Complete eof (.ranged e) ts rest := by
  intro ends
  have operand : postfixed expr eof (feedOf ts) = .ok e (feedOf rest) := read.trans (suffixes_stop ends)
  rw [rangeExpr, bind_ok operand, bind_ok (accept_next fun t next => (ends t next).2.2.2)]
  rfl

theorem Complete.range (left : Complete eof (.postfixed first) ts (t :: mid)) (points : t.kind = .dotDot)
    (right : Complete eof (.postfixed last) mid rest) : Complete eof (.ranged (.rangeOf first last)) ts rest := by
  intro ends
  -- The points stop the suffixes as well.
  have operand : postfixed expr eof (feedOf ts) = .ok first (feedOf (t :: mid)) := by
    refine Eq.trans left ?_
    rw [suffixes_eq, suffixStep, bind_ok (currentKind_tokens _), List.head?_cons, Option.map_some, points]
    rfl
  rw [rangeExpr, bind_ok operand, bind_ok (accept_tokens points)]
  dsimp only
  rw [bind_ok (right.trans (suffixes_stop ends))]
  rfl

end Suffixes

section Primaries

variable {eof : Span} {e : Expr} {es args parts : List Expr} {t id text opening closing comma : Token}
  {value : Value} {ts types mid rest : List Token}

theorem primary_tokens (t : Token) (ts : List Token) :
    primary expr eof (feedOf (t :: ts)) = primaryAfter expr t eof (feedOf ts) :=
  bind_ok advance_tokens

theorem Complete.literal (kind : t.kind ∈ literalKinds) (valued : t.value = some value) :
    Complete eof (.primary (.literal value)) (t :: rest) rest := by
  refine (primary_tokens t rest).trans ?_
  simp only [literalKinds, List.mem_cons, List.not_mem_nil, or_false] at kind
  rcases kind with kind | kind | kind | kind <;> simp only [primaryAfter, kind, valued] <;> rfl

theorem Complete.name (named : id.kind = .identifier) (open_ : ¬ Encloses rest) :
    Complete eof (.primary (.ident id.text none)) (id :: rest) rest := by
  refine (primary_tokens id rest).trans ?_
  simp only [primaryAfter, named]
  rw [bind_ok (generics_none open_)]
  rfl

theorem Complete.generic (named : id.kind = .identifier) (spells : Spells (.closed args) types) :
    Complete eof (.primary (.ident id.text (some args))) (id :: types ++ rest) rest := by
  refine (primary_tokens id (types ++ rest)).trans ?_
  simp only [primaryAfter, named]
  rw [bind_ok (generics_tokens spells rest)]
  rfl

def closers : List TokenKind := [.rightParen, .rightBracket, .rightBrace, .comma, .semicolon]

-- A whole expression is followed by what closes it.
theorem Complete.closed (read : Complete eof (.infixed 0 e) ts (closing :: rest)) {kind : TokenKind}
    (closes : closing.kind = kind) (closer : kind ∈ closers) :
    expr eof (feedOf ts) = .ok e (feedOf (closing :: rest)) := by
  have ends : ∀ kind ∈ closers, Ends kind ∧ binaryOperator? kind = none := by decide
  have alone {op : BinaryOperator} {own : Nat} (writes : Writes kind op own) : False := by
    have found := writes_iff.1 writes
    rw [(ends kind closer).2] at found
    cases found
  have below (level : Nat) : Below level closing.kind := by
    intro op own writes
    rw [closes] at writes
    exact (alone writes).elim
  have leaves : Leaves 0 closing.kind := ⟨closes ▸ (ends kind closer).1, below _⟩
  exact (read (.cons leaves) 0 (Nat.le_refl _)).trans (operations_stop (.cons (below _)))

theorem Complete.group (opens : opening.kind = .leftParen)
    (read : Complete eof (.infixed 0 e) ts (closing :: rest)) (closes : closing.kind = .rightParen) :
    Complete eof (.primary (.grouping e)) (opening :: ts) rest := by
  refine (primary_tokens opening ts).trans ?_
  simp only [primaryAfter, opens]
  rw [bind_ok (read.closed closes (by decide)), bind_ok (expect_tokens closes)]
  rfl

theorem Complete.list (opens : opening.kind = .leftBracket)
    (items : Complete eof (.items es) ts (closing :: rest)) (closes : closing.kind = .rightBracket) :
    Complete eof (.primary (.listOf es)) (opening :: ts) rest := by
  refine (primary_tokens opening ts).trans ?_
  simp only [primaryAfter, opens]
  rw [bind_ok (items .rightBracket (by decide) _ _ rfl closes), bind_ok (expect_tokens closes)]
  rfl

theorem Complete.none : Complete eof (.items []) rest rest := by
  intro close _ t others equal closes
  subst equal
  rw [itemsUntil_eq, itemStep, bind_ok (isNext_tokens closes)]
  rfl

theorem Complete.last (derives : Derives (.infixed 0 e) ts rest)
    (read : Complete eof (.infixed 0 e) ts rest) : Complete eof (.items [e]) ts rest := by
  intro close closer t others equal closes
  subst equal
  have enders : ∀ kind ∈ [TokenKind.rightParen, .rightBracket], kind ∉ .bang :: .minus :: primaryKinds ∧
      kind ∈ closers ∧ kind ≠ .comma := by decide
  obtain ⟨noStart, ends, noComma⟩ := enders close closer
  have other : Next (· ≠ .comma) (t :: others) := .cons (by rw [closes]; exact noComma)
  rw [itemsUntil_eq, itemStep, bind_ok (isNext_next (derives.next_start noStart))]
  simp only [Bool.false_eq_true, if_false]
  rw [bind_ok (read.closed closes ends), bind_ok (accept_next other)]
  rfl

theorem Complete.more (derives : Derives (.infixed 0 e) ts (comma :: mid))
    (read : Complete eof (.infixed 0 e) ts (comma :: mid)) (separates : comma.kind = .comma)
    (items : Complete eof (.items es) mid rest) : Complete eof (.items (e :: es)) ts rest := by
  intro close closer t others same closes
  have enders : ∀ kind ∈ [TokenKind.rightParen, .rightBracket],
      kind ∉ .bang :: .minus :: primaryKinds := by decide
  rw [itemsUntil_eq, itemStep, bind_ok (isNext_next (derives.next_start (enders close closer)))]
  simp only [Bool.false_eq_true, if_false]
  rw [bind_ok (read.closed separates (by decide)), bind_ok (accept_tokens separates)]
  dsimp only
  rw [bind_ok (items close closer t others same closes)]
  rfl

theorem stringText_end (isText : text.kind = .stringText) (ends : closing.kind = .stringEnd) :
    stringText eof (feedOf (text :: closing :: rest)) = .ok (text.text, true) (feedOf rest) := by
  rw [stringText, bind_ok (expect_tokens isText), bind_ok (accept_tokens ends)]
  rfl

theorem stringText_open (isText : text.kind = .stringText) (other : Next (· ≠ .stringEnd) ts) :
    stringText eof (feedOf (text :: ts)) = .ok (text.text, false) (feedOf ts) := by
  rw [stringText, bind_ok (expect_tokens isText), bind_ok (accept_next other)]
  rfl

theorem leaveSegment_tokens (closes : closing.kind = .rightBrace) :
    leaveSegment eof (feedOf (closing :: rest)) = .ok () (feedOf rest) := by
  rw [leaveSegment, bind_ok (expect_tokens closes)]
  rfl

theorem stringParts_end (isText : text.kind = .stringText) (ends : closing.kind = .stringEnd) :
    stringParts expr eof (feedOf (text :: closing :: rest)) =
      .ok (textPiece text.text, false) (feedOf rest) := by
  rw [stringParts_eq, stringStep, bind_ok (stringText_end isText ends)]
  rfl

theorem stringParts_segment (isText : text.kind = .stringText)
    (derives : Derives (.infixed 0 e) ts (closing :: mid))
    (read : Complete eof (.infixed 0 e) ts (closing :: mid)) (closes : closing.kind = .rightBrace)
    (pieces : Complete eof (.pieces parts) mid rest) :
    stringParts expr eof (feedOf (text :: ts)) =
      .ok (textPiece text.text ++ e :: parts, true) (feedOf rest) := by
  obtain ⟨segmented, pieces⟩ := pieces
  rw [stringParts_eq, stringStep,
    bind_ok (stringText_open isText (derives.next_start (by decide)))]
  dsimp only
  rw [bind_ok (read.closed closes (by decide)), bind_ok (leaveSegment_tokens closes), bind_ok pieces]
  rfl

theorem Complete.string (opens : opening.kind = .stringBegin) (isText : text.kind = .stringText)
    (ends : closing.kind = .stringEnd) :
    Complete eof (.primary (.literal (.string text.text))) (opening :: text :: closing :: rest) rest := by
  refine (primary_tokens opening _).trans ?_
  simp only [primaryAfter, opens, stringExpr]
  rw [bind_ok (stringParts_end isText ends)]
  by_cases empty : text.text = "" <;> simp only [textPiece, empty, if_true, if_false] <;> rfl

theorem Complete.interpolation (opens : opening.kind = .stringBegin) (isText : text.kind = .stringText)
    (derives : Derives (.infixed 0 e) ts (closing :: mid))
    (read : Complete eof (.infixed 0 e) ts (closing :: mid)) (closes : closing.kind = .rightBrace)
    (pieces : Complete eof (.pieces parts) mid rest) :
    Complete eof (.primary (.interpolation (textPiece text.text ++ e :: parts))) (opening :: text :: ts)
      rest := by
  refine (primary_tokens opening _).trans ?_
  simp only [primaryAfter, opens, stringExpr]
  rw [bind_ok (stringParts_segment isText derives read closes pieces)]
  rfl

end Primaries

theorem Derives.complete {eof : Span} {phrase : ExprPhrase} {ts rest : List Token}
    (derives : Derives phrase ts rest) : Complete eof phrase ts rest := by
  induction derives with
  | operand _ read => exact read.operand
  | binary low _ writes _ left right => exact left.binary low writes right
  | not kind _ read => exact read.unary kind (.inl ⟨rfl, rfl⟩)
  | negate kind _ read => exact read.unary kind (.inr ⟨rfl, rfl⟩)
  | unprefixed ranged read => exact .unprefixed ranged read
  | single _ read => exact read.single
  | range _ points _ left right => exact left.range points right
  | plain _ read => exact read.plain
  | member _ isDot named read => exact read.member isDot named
  | call _ opens _ closes read items => exact read.call opens items closes
  | element _ opens _ closes read items => exact read.element opens items closes
  | literal kind valued => exact .literal kind valued
  | name named open_ => exact .name named open_
  | generic named spells => exact .generic named spells
  | group opens _ closes read => exact .group opens read closes
  | list opens _ closes items => exact .list opens items closes
  | string opens isText ends => exact .string opens isText ends
  | interpolation opens isText inner closes _ read pieces =>
    exact .interpolation opens isText inner read closes pieces
  | none => exact .none
  | last inner read => exact .last inner read
  | more inner separates _ read items => exact .more inner read separates items
  | textEnd isText ends => exact ⟨false, stringParts_end isText ends⟩
  | segment isText inner closes _ read pieces =>
    exact ⟨true, stringParts_segment isText inner read closes pieces⟩

end Frontend.Grammar
