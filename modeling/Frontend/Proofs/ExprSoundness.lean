import Frontend.Proofs.ExprCompleteness

-- What is read is derived.  An expression inside another one comes behind a token, so it is read from fewer
-- tokens than the outer one: the number of tokens ahead is what the induction is on.

namespace Frontend.Grammar

open Surface TokenSource Feed

-- Where the rule reads something off the tokens, it is of the kind `D`, which says where it ends too.
def Gives {α : Type} (r : Rule Feed α) (ts : List Token) (D : α → List Token → Prop) : Prop :=
  ∀ eof a s', r eof (feedOf ts) = .ok a s' → ∃ rest, s' = feedOf rest ∧ D a rest

section Gives

variable {α β : Type} {r r' : Rule Feed α} {f : α → Rule Feed β} {ts : List Token}
  {D E : α → List Token → Prop} {F : β → List Token → Prop}

theorem Gives.pure {a : α} (good : D a ts) : Gives (Pure.pure a) ts D := by
  intro _ _ _ equal
  cases equal
  exact ⟨ts, rfl, good⟩

theorem Gives.failAt {span : Span} {error : SyntaxError} : Gives (failAt span error) ts D := by
  intro _ _ _ read
  cases read

theorem Gives.endOfInput : Gives endOfInput ts D := by
  intro _ _ _ read
  cases read

theorem Gives.bind (first : Gives r ts D) (then_ : ∀ a rest, D a rest → Gives (f a) rest F) :
    Gives (r >>= f) ts F := by
  intro eof b s' read
  simp only [Bind.bind, ReaderT.bind, EStateM.bind] at read
  split at read
  · next a s ran =>
    obtain ⟨rest, rfl, good⟩ := first eof a s ran
    exact then_ a rest good eof b s' read
  · cases read

theorem Gives.imp (gives : Gives r ts D) (weaker : ∀ a rest, D a rest → E a rest) : Gives r ts E := by
  intro eof a s' read
  obtain ⟨rest, same, good⟩ := gives eof a s' read
  exact ⟨rest, same, weaker a rest good⟩

theorem Gives.step (same : ∀ eof, r eof (feedOf ts) = r' eof (feedOf ts)) (gives : Gives r' ts D) :
    Gives r ts D :=
  fun eof a s' read => gives eof a s' (same eof ▸ read)

end Gives

section Tokens

variable {ts : List Token}

theorem advance_gives : Gives advance ts fun t rest => ts = t :: rest := by
  intro _ t s' read
  cases ts with
  | nil => cases read
  | cons u us => cases read; exact ⟨us, rfl, rfl⟩

theorem Gives.behind {β : Type} {t : Token} {f : Token → Rule Feed β} {F : β → List Token → Prop}
    (then_ : Gives (f t) ts F) : Gives (advance >>= f) (t :: ts) F := by
  apply advance_gives.bind
  intro u rest same
  cases same
  exact then_

theorem current_gives : Gives current ts fun found rest => ts = rest ∧ found = ts.head? := by
  intro _ found s' read
  cases ts <;> cases read <;> exact ⟨_, rfl, rfl, rfl⟩

theorem currentKind_gives :
    Gives currentKind ts fun kind rest => ts = rest ∧ kind = ts.head?.map Token.kind :=
  current_gives.bind fun _ _ ⟨same, found⟩ => .pure ⟨same, by rw [found]⟩

theorem isNext_gives (kind : TokenKind) : Gives (isNext kind) ts fun _ rest => ts = rest :=
  currentKind_gives.bind fun _ _ same => .pure same.1

theorem accept_gives (kind : TokenKind) : Gives (accept? kind) ts fun found rest =>
    match found with
    | some t => t.kind = kind ∧ ts = t :: rest
    | none => ts = rest := by
  intro _ found s' read
  cases ts with
  | nil => cases read; exact ⟨[], rfl, rfl⟩
  | cons t ts =>
    by_cases same : t.kind = kind
    · rw [accept_tokens same] at read
      cases read
      exact ⟨ts, rfl, same, rfl⟩
    · rw [accept_next (.cons same)] at read
      cases read
      exact ⟨t :: ts, rfl, rfl⟩

theorem expect_gives (kind : TokenKind) :
    Gives (expect kind) ts fun t rest => t.kind = kind ∧ ts = t :: rest := by
  apply current_gives.bind
  intro _ _ given
  obtain ⟨rfl, rfl⟩ := given
  cases ts with
  | nil => exact .endOfInput
  | cons t ts =>
    by_cases same : t.kind = kind
    · simp only [List.head?_cons, same, if_true]
      refine advance_gives.imp ?_
      intro _ _ equal
      cases equal
      exact ⟨same, rfl⟩
    · simp only [List.head?_cons, same, if_false]
      exact .failAt

theorem identifier_gives : Gives identifier ts fun name rest =>
    ∃ id, id.kind = .identifier ∧ name = id.text ∧ ts = id :: rest :=
  (expect_gives .identifier).bind fun id _ ⟨named, same⟩ => .pure ⟨id, named, rfl, same⟩

theorem generics_gives : Gives (genericsAfterName typeExpr) ts fun found rest =>
    match found with
    | some args => ∃ list, Spells (.closed args) list ∧ ts = list ++ rest
    | none => ts = rest ∧ ¬ Encloses ts := by
  intro _ found s' read
  by_cases closed : Encloses ts
  · obtain ⟨args, list, rest, spells, rfl⟩ := closed
    rw [generics_tokens spells] at read
    cases read
    exact ⟨rest, rfl, list, spells, rfl⟩
  · rw [generics_none closed] at read
    cases read
    exact ⟨ts, rfl, rfl, closed⟩

end Tokens

def ExprPhrase.least : ExprPhrase → Nat
  | .items _ => 0
  | _ => 1

theorem Derives.shorter {phrase : ExprPhrase} {ts rest : List Token}
    (derives : Derives phrase ts rest) : rest.length + phrase.least ≤ ts.length := by
  induction derives <;>
    simp only [ExprPhrase.least, List.length_cons, List.length_append] at * <;> omega

theorem Derives.shorter_behind {phrase : ExprPhrase} {t : Token} {ts rest : List Token}
    (derives : Derives phrase ts (t :: rest)) : rest.length < ts.length := by
  have shorter := derives.shorter
  rw [List.length_cons] at shorter
  omega

theorem Derives.lower {high low : Nat} {e : Expr} {ts rest : List Token}
    (derives : Derives (.infixed high e) ts rest) (le : low ≤ high) :
    Derives (.infixed low e) ts rest := by
  cases derives with
  | operand operand => exact .operand operand
  | binary own left writes right => exact .binary (Nat.le_trans le own) left writes right

-- Of fewer than `n` tokens, what is read as an expression is derived, and no operator goes on with it.
def ExprsDerived (n : Nat) : Prop :=
  ∀ level ts, ts.length < n →
    Gives (exprFrom level) ts fun e rest => Derives (.infixed level e) ts rest ∧ Next (Below level) rest

section Rules

variable {n : Nat} (exprs : ExprsDerived n)

include exprs

theorem ExprsDerived.expr (ts : List Token) (short : ts.length < n) :
    Gives expr ts fun e rest => Derives (.infixed 0 e) ts rest :=
  (exprs 0 ts short).imp fun _ _ good => good.1

theorem ExprsDerived.items (close : TokenKind) (ts : List Token) (short : ts.length < n) :
    Gives (itemsUntil close Grammar.expr) ts fun es rest => Derives (.items es) ts rest := by
  refine .step (fun _ => itemsUntil_eq _ close) ((isNext_gives close).bind ?_)
  intro closes _ same
  subst same
  cases closes with
  | true => exact .pure .none
  | false =>
    apply (exprs.expr _ short).bind
    intro e behind first
    apply (accept_gives .comma).bind
    intro comma others passed
    cases comma with
    | none =>
      obtain rfl := passed
      exact .pure (.last first)
    | some comma =>
      obtain ⟨separates, rfl⟩ := passed
      have fewer := first.shorter_behind
      exact (ExprsDerived.items close others (by omega)).bind fun _ _ more =>
        .pure (.more first separates more)
termination_by ts.length

theorem ExprsDerived.enclosed {α : Type} {f : List Expr → Rule Feed α} {D : α → List Token → Prop}
    (close : TokenKind) (ts : List Token) (short : ts.length < n)
    (then_ : ∀ es closing rest, Derives (.items es) ts (closing :: rest) → closing.kind = close →
      Gives (f es) rest D) :
    Gives (do let es ← itemsUntil close Grammar.expr; let _ ← expect close; f es) ts D := by
  apply (exprs.items close ts short).bind
  intro es behind items
  apply (expect_gives close).bind
  intro closing rest found
  obtain ⟨closes, rfl⟩ := found
  exact then_ es closing rest items closes

-- The string with these parts, with expressions among them or not.
def stringOf : List Expr × Bool → Expr
  | (parts, true) => .interpolation parts
  | (parts, false) => parts.head?.getD (.literal (.string ""))

omit exprs in
theorem stringOf_text (text : String) :
    stringOf (textPiece text, false) = .literal (.string text) := by
  by_cases empty : text = "" <;> simp only [textPiece, empty, if_true, if_false] <;> rfl

omit exprs in
theorem stringText_gives {ts : List Token} : Gives stringText ts fun found rest =>
    ∃ text others, ts = text :: others ∧ text.kind = .stringText ∧ found.1 = text.text ∧
      if found.2 then ∃ closing, closing.kind = .stringEnd ∧ others = closing :: rest
      else others = rest := by
  apply (expect_gives .stringText).bind
  intro text others given
  obtain ⟨isText, same⟩ := given
  refine (accept_gives .stringEnd).bind fun closing rest passed => .pure ?_
  cases closing with
  | none => exact ⟨text, others, same, isText, rfl, passed⟩
  | some closing => exact ⟨text, others, same, isText, rfl, closing, passed⟩

omit exprs in
theorem leaveSegment_gives {ts : List Token} : Gives leaveSegment ts fun _ rest =>
    ∃ closing, closing.kind = .rightBrace ∧ ts = closing :: rest := by
  apply (expect_gives .rightBrace).bind
  intro closing rest given _ _ _ equal
  obtain ⟨closes, rfl⟩ := given
  cases equal
  exact ⟨rest, rfl, closing, closes, rfl⟩

theorem ExprsDerived.pieces (ts : List Token) (short : ts.length < n) :
    Gives (stringParts Grammar.expr) ts fun found rest => Derives (.pieces found.1) ts rest ∧
      ∀ opening, opening.kind = .stringBegin → Derives (.primary (stringOf found)) (opening :: ts) rest := by
  refine .step (fun _ => stringParts_eq _) (stringText_gives.bind ?_)
  intro given rest both
  obtain ⟨written, ends⟩ := given
  obtain ⟨text, others, rfl, isText, rfl, passed⟩ := both
  cases ends with
  | true =>
    obtain ⟨closing, closes, rfl⟩ := passed
    refine .pure ⟨.textEnd isText closes, fun opening opens => ?_⟩
    rw [stringOf_text]
    exact .string opens isText closes
  | false =>
    obtain rfl : others = rest := passed
    apply (exprs.expr others (Nat.lt_of_succ_lt short)).bind
    intro e behind inner
    apply leaveSegment_gives.bind
    intro _ mid given
    obtain ⟨closing, closes, rfl⟩ := given
    have fewer : mid.length < (text :: others).length := Nat.lt_succ_of_lt inner.shorter_behind
    refine (ExprsDerived.pieces mid (Nat.lt_trans fewer short)).bind fun found rest more => .pure ?_
    exact ⟨.segment isText inner closes more.1,
      fun opening opens => .interpolation opens isText inner closes more.1⟩
termination_by ts.length

omit exprs in
theorem stringExpr_eq : stringExpr Grammar.expr (σ := Feed) =
    (do return stringOf (← stringParts Grammar.expr)) := by
  unfold stringExpr
  congr 1
  funext found
  rcases found with ⟨parts, _ | _⟩ <;> rfl

omit exprs in
theorem literal_gives {t : Token} {ts : List Token} (kind : t.kind ∈ literalKinds) :
    Gives (primaryAfter Grammar.expr t) ts fun e rest => Derives (.primary e) (t :: ts) rest := by
  have found := kind
  simp only [literalKinds, List.mem_cons, List.not_mem_nil, or_false] at found
  cases valued : t.value with
  | none => rcases found with found | found | found | found <;>
      simp only [primaryAfter, found, valued] <;> exact .failAt
  | some value =>
    have derived : Derives (.primary (.literal value)) (t :: ts) ts := .literal kind valued
    rcases found with found | found | found | found <;>
      simp only [primaryAfter, found, valued] <;> exact .pure derived

theorem ExprsDerived.primary (ts : List Token) (short : ts.length ≤ n) :
    Gives (primary Grammar.expr) ts fun e rest => Derives (.primary e) ts rest := by
  apply advance_gives.bind
  intro t ts same
  subst same
  rw [List.length_cons] at short
  by_cases literal : t.kind ∈ literalKinds
  · exact literal_gives literal
  unfold primaryAfter
  split
  case h_1 kind | h_2 kind | h_3 kind | h_4 kind => exact (literal (by rw [kind]; decide)).elim
  case h_5 named =>
    refine generics_gives.bind fun found rest passed => .pure ?_
    cases found with
    | none =>
      obtain ⟨rfl, open_⟩ := passed
      exact .name named open_
    | some args =>
      obtain ⟨list, spells, rfl⟩ := passed
      exact .generic named spells
  case h_6 opens =>
    apply (exprs.expr ts (by omega)).bind
    intro e behind inner
    apply (expect_gives .rightParen).bind
    intro closing rest given
    obtain ⟨closes, rfl⟩ := given
    exact .pure (.group opens inner closes)
  case h_7 opens =>
    apply exprs.enclosed .rightBracket ts (by omega)
    intro es closing rest items closes
    exact .pure (.list opens items closes)
  case h_8 opens =>
    rw [stringExpr_eq]
    exact (exprs.pieces ts (by omega)).bind fun found rest pieces => .pure (pieces.2 t opens)
  case h_9 => exact .failAt

theorem ExprsDerived.suffixes {start : List Token} (e : Expr) (ts : List Token) (short : ts.length ≤ n)
    (operand : Derives (.postfixed e) start ts) :
    Gives (suffixes Grammar.expr e) ts fun e rest => Derives (.postfixed e) start rest := by
  refine .step (fun _ => suffixes_eq _ e) (currentKind_gives.bind ?_)
  intro kind _ given
  obtain ⟨rfl, next⟩ := given
  have opened {kind : TokenKind} (next : some kind = ts.head?.map Token.kind) :
      ∃ t others, ts = t :: others ∧ t.kind = kind ∧ others.length < n := by
    cases ts with
    | nil => cases next
    | cons t others => cases next; exact ⟨t, others, rfl, rfl, short⟩
  split
  case h_1 =>
    obtain ⟨dot, others, rfl, isDot, -⟩ := opened next
    apply Gives.behind
    apply identifier_gives.bind
    intro _ rest given
    obtain ⟨id, named, rfl, rfl⟩ := given
    have fewer : rest.length < (dot :: id :: rest).length := by simp only [List.length_cons]; omega
    exact ExprsDerived.suffixes _ rest (by omega) (operand.member isDot named)
  case h_2 =>
    obtain ⟨opening, others, rfl, opens, fewer⟩ := opened next
    apply Gives.behind
    apply exprs.enclosed .rightParen others fewer
    intro args closing rest items closes
    have shorter : rest.length < (opening :: others).length := Nat.lt_succ_of_lt items.shorter_behind
    exact ExprsDerived.suffixes _ rest (by omega) (operand.call opens items closes)
  case h_3 =>
    obtain ⟨opening, others, rfl, opens, fewer⟩ := opened next
    apply Gives.behind
    apply exprs.enclosed .rightBracket others fewer
    intro args closing rest items closes
    have shorter : rest.length < (opening :: others).length := Nat.lt_succ_of_lt items.shorter_behind
    exact ExprsDerived.suffixes _ rest (by omega) (operand.element opens items closes)
  case h_4 => exact .pure operand
termination_by ts.length

theorem ExprsDerived.postfixed (ts : List Token) (short : ts.length ≤ n) :
    Gives (postfixed Grammar.expr) ts fun e rest => Derives (.postfixed e) ts rest := by
  apply (exprs.primary ts short).bind
  intro e rest operand
  have shorter := operand.shorter
  exact exprs.suffixes e rest (by omega) operand.plain

theorem ExprsDerived.ranged (ts : List Token) (short : ts.length ≤ n) :
    Gives (rangeExpr Grammar.expr) ts fun e rest => Derives (.ranged e) ts rest := by
  apply (exprs.postfixed ts short).bind
  intro first behind left
  apply (accept_gives .dotDot).bind
  intro points others passed
  cases points with
  | none =>
    obtain rfl := passed
    exact .pure left.single
  | some points =>
    obtain ⟨points, rfl⟩ := passed
    have shorter := left.shorter_behind
    exact (exprs.postfixed others (by omega)).bind fun last rest right =>
      .pure (left.range points right)

theorem ExprsDerived.prefixed (ts : List Token) (short : ts.length ≤ n) :
    Gives (prefixed Grammar.expr) ts fun e rest => Derives (.prefixed e) ts rest := by
  refine .step (fun _ => prefixed_eq _) ((accept_gives .bang).bind fun found others passed => ?_)
  cases found with
  | some t =>
    obtain ⟨kind, rfl⟩ := passed
    exact (ExprsDerived.prefixed others (Nat.le_of_lt short)).bind fun e rest operand =>
      .pure (.not kind operand)
  | none =>
    obtain rfl := passed
    apply (accept_gives .minus).bind
    intro found others passed
    cases found with
    | some t =>
      obtain ⟨kind, rfl⟩ := passed
      exact (ExprsDerived.prefixed others (Nat.le_of_lt short)).bind fun e rest operand =>
        .pure (.negate kind operand)
    | none =>
      obtain rfl := passed
      exact (exprs.ranged ts short).imp fun e rest => .unprefixed
termination_by ts.length

-- `lhs` is read from `start` up to `ts`, where an operator goes on that is of level `top` at most.
theorem ExprsDerived.operations {level top : Nat} {start : List Token} (lhs : Expr) (ts : List Token)
    (short : ts.length ≤ n) (low : level ≤ top) (left : Derives (.infixed top lhs) start ts)
    (next : Next (Below (top + 1)) ts) : Gives (operations exprFrom level lhs) ts
      fun e rest => Derives (.infixed level e) start rest ∧ Next (Below level) rest := by
  refine .step (fun _ => operations_eq _ level lhs) (currentKind_gives.bind ?_)
  intro _ _ given
  obtain ⟨rfl, rfl⟩ := given
  split
  case h_1 none_ =>
    refine .pure ⟨left.lower low, fun t isNext op own writes => ?_⟩
    rw [Option.mem_def.1 isNext, Option.map_some, Option.bind_some, writes_iff.1 writes] at none_
    cases none_
  case h_2 op own found =>
    obtain ⟨t, mid, rfl⟩ : ∃ t mid, ts = t :: mid := by
      cases ts with
      | nil => cases found
      | cons t mid => exact ⟨t, mid, rfl⟩
    have writes : Writes t.kind op own := writes_iff.2 found
    split
    · next small =>
      refine .pure ⟨left.lower low, .cons ?_⟩
      intro op' own' writes'
      rwa [writes'.same_level writes]
    · next high =>
      apply Gives.behind
      apply (exprs (own + 1) mid short).bind
      intro rhs rest given
      obtain ⟨right, lower⟩ := given
      have shorter := right.shorter
      have fewer : rest.length < (t :: mid).length := by simp only [List.length_cons]; omega
      have extended : Derives (.infixed own (.binary op lhs rhs)) start rest :=
        .binary (Nat.le_refl own) (left.lower (Nat.le_of_lt_succ (next t rfl op own writes))) writes right
      exact ExprsDerived.operations _ rest (by omega) (Nat.le_of_not_lt high) extended lower
termination_by ts.length

end Rules

theorem exprs_derived (n : Nat) : ExprsDerived n := by
  induction n with
  | zero => exact fun _ _ short => absurd short (Nat.not_lt_zero _)
  | succ n exprs =>
    intro level ts short
    have short := Nat.le_of_lt_succ short
    refine .step (fun _ => exprFrom_eq _ level) ((exprs.prefixed ts short).bind fun lhs behind operand => ?_)
    have shorter := operand.shorter
    -- Nothing but its operator binds the first operand, whatever the level of that one.
    exact exprs.operations lhs behind (by omega) (Nat.le_add_right level infixLevels.length)
      (.operand operand) fun t _ op own writes => by have := writes.level_lt; omega

end Frontend.Grammar
