import Frontend.Proofs.Refusals

-- Expressions that are refused.  A token of a source that is a literal carries its value, so that the rules
-- never refuse a literal.  An expression inside another one comes behind a token, and the number of answers
-- left is what the induction is on.

namespace Frontend

open Text TokenKind

theorem ofWord_no_number (word : List Char) : ofWord word ≠ .integer ∧ ofWord word ≠ .double := by
  unfold ofWord
  repeat' split
  all_goals decide

theorem Token.Made.integer_value {t : Token} (made : t.Made) (kind : t.kind = .integer) :
    ∃ n, t.value = some (.integer n) := by
  cases made with
  | integer _ => exact ⟨_, rfl⟩
  | symbol found =>
    have symbol := symbol_kind found
    cases kind
    exact absurd symbol (by decide)
  | word _ _ => exact absurd kind (ofWord_no_number _).1
  | double | text => cases kind
  | mark listed =>
    cases kind
    exact absurd listed (by decide)

theorem Token.Made.literal_value {t : Token} (made : t.Made) (kind : t.kind ∈ Grammar.literalKinds) :
    ∃ value, t.value = some value := by
  simp only [Grammar.literalKinds, List.mem_cons, List.not_mem_nil, or_false] at kind
  cases made with
  | integer _ | double | text => exact ⟨_, rfl⟩
  | symbol found =>
    have symbol := symbol_kind found
    rcases kind with rfl | rfl | rfl | rfl <;> exact absurd symbol (by decide)
  | @word c cs _ _ _ =>
    have noNumber := ofWord_no_number (clamped (c :: cs))
    rcases kind with kind | kind | kind | kind
    · exact ⟨.boolean true, congrArg wordValue? kind⟩
    · exact ⟨.boolean false, congrArg wordValue? kind⟩
    · exact absurd kind noNumber.1
    · exact absurd kind noNumber.2
  | mark listed => rcases kind with rfl | rfl | rfl | rfl <;> exact absurd listed (by decide)

namespace Grammar

open Surface TokenSource Feed

-- From fewer than `n` answers on, expressions take a token at least, or it is explained why there is none.
def ExprsTold (answers : List Answer) (n : Nat) : Prop :=
  ∀ level (p : Position answers), p.left < n → Tells (exprFrom level) p (Advances p)

section Rules

variable {answers : List Answer} {n : Nat} (made : ∀ t, .ok t ∈ answers → t.Made)
  (exprs : ExprsTold answers n)

theorem stringText_tells {p : Position answers} : Tells stringText p (Advances p) := by
  apply (expect_tells .stringText).bind
  intro text q found
  refine (accept_tells .stringEnd).bind fun closing r passed => .pure ?_
  have fewer := found.2.left_lt
  cases closing with
  | none =>
    obtain ⟨rfl, -⟩ := passed
    exact fewer
  | some closing => exact Nat.lt_trans passed.2.left_lt fewer

theorem leaveSegment_tells {p : Position answers} : Tells leaveSegment p (Advances p) := by
  apply (expect_tells .rightBrace).bind
  intro closing q found
  exact fun _ => .ok found.2.left_lt

include exprs

theorem ExprsTold.expr (p : Position answers) (short : p.left < n) : Tells expr p (Advances p) :=
  exprs 0 p short

theorem ExprsTold.enclosed {α : Type} {f : List Expr → Rule Feed α} {D : α → Position answers → Prop}
    (close : TokenKind) (p : Position answers) (short : p.left < n)
    (then_ : ∀ es q, q.left < p.left → Tells (f es) q D) :
    Tells (do let es ← itemsUntil close Grammar.expr; let _ ← expect close; f es) p D := by
  apply (itemsUntil_tells (fun _ => weave_id.expr 0) close exprs.expr p short).bind
  intro es q items
  apply (expect_tells close).bind
  intro closing r found
  exact then_ es r (Nat.lt_of_lt_of_le found.2.left_lt items)

theorem ExprsTold.pieces (p : Position answers) (short : p.left < n) :
    Tells (stringParts Grammar.expr) p (Advances p) := by
  refine .step (fun _ => stringParts_eq _) (stringText_tells.bind ?_)
  intro found q text
  obtain ⟨written, ends⟩ := found
  cases ends with
  | true => exact .pure text
  | false =>
    apply (exprs.expr q (Nat.lt_trans text short)).bind
    intro e r inner
    apply leaveSegment_tells.bind
    intro _ s closed
    have fewer : s.left < p.left := Nat.lt_trans closed (Nat.lt_trans inner text)
    exact (ExprsTold.pieces s (Nat.lt_trans fewer short)).bind fun _ u more =>
      .pure (Nat.lt_trans more fewer)
termination_by p.left

include made

theorem ExprsTold.primary (p : Position answers) (short : p.left ≤ n) :
    Tells (primary Grammar.expr) p (Advances p) := by
  apply advance_tells.bind
  intro t q takes
  have listed := takes.listed t (List.mem_singleton_self t)
  have fewer := takes.left_lt
  have worth := (made t listed).literal_value
  unfold primaryAfter
  split
  case h_1 kind | h_2 kind | h_3 kind | h_4 kind =>
    obtain ⟨value, valued⟩ := worth (by rw [kind]; decide)
    rw [valued]
    exact .pure fewer
  case h_5 => exact generics_tells.bind fun _ r after => .pure (Nat.lt_of_le_of_lt after fewer)
  case h_6 =>
    apply (exprs.expr q (Nat.lt_of_lt_of_le fewer short)).bind
    intro e r inner
    exact (expect_tells .rightParen).bind fun _ s closed =>
      .pure (Nat.lt_trans closed.2.left_lt (Nat.lt_trans inner fewer))
  case h_7 =>
    apply exprs.enclosed .rightBracket q (Nat.lt_of_lt_of_le fewer short)
    intro es r items
    exact .pure (Nat.lt_trans items fewer)
  case h_8 =>
    apply (exprs.pieces q (Nat.lt_of_lt_of_le fewer short)).bind
    intro found r pieces
    split <;> exact .pure (Nat.lt_trans pieces fewer)
  case h_9 =>
    refine .refuse (.unexpectedInExpr listed ?_)
    grind [primaryKinds, literalKinds]

omit made in
theorem ExprsTold.suffixes (e : Expr) (p : Position answers) (short : p.left ≤ n) :
    Tells (suffixes Grammar.expr e) p fun _ q => q.left ≤ p.left := by
  refine .step (fun _ => suffixes_eq _ e) (currentKind_tells.bind ?_)
  intro kind _ given
  obtain ⟨rfl, -⟩ := given
  split
  case h_1 =>
    apply advance_tells.bind
    intro dot q takes
    apply identifier_tells.bind
    intro name r named
    have fewer : r.left < _ := Nat.lt_trans named takes.left_lt
    exact (ExprsTold.suffixes _ r (by omega)).imp fun _ s more => by omega
  case h_2 | h_3 =>
    apply advance_tells.bind
    intro opening q takes
    have opened := takes.left_lt
    apply exprs.enclosed _ q (by omega)
    intro args r items
    exact (ExprsTold.suffixes _ r (by omega)).imp fun _ s more => by omega
  case h_4 => exact .pure (Nat.le_refl _)
termination_by p.left

theorem ExprsTold.postfixed (p : Position answers) (short : p.left ≤ n) :
    Tells (postfixed Grammar.expr) p (Advances p) := by
  apply (exprs.primary made p short).bind
  intro e q operand
  exact (exprs.suffixes e q (by omega)).imp fun _ r more => Nat.lt_of_le_of_lt more operand

theorem ExprsTold.ranged (p : Position answers) (short : p.left ≤ n) :
    Tells (rangeExpr Grammar.expr) p (Advances p) := by
  apply (exprs.postfixed made p short).bind
  intro first q left
  apply (accept_tells .dotDot).bind
  intro points r passed
  cases points with
  | none =>
    obtain ⟨rfl, -⟩ := passed
    exact .pure left
  | some points =>
    have fewer := passed.2.left_lt
    exact (exprs.postfixed made r (by omega)).bind fun last s right => .pure (by omega)

theorem ExprsTold.prefixed (p : Position answers) (short : p.left ≤ n) :
    Tells (prefixed Grammar.expr) p (Advances p) := by
  refine .step (fun _ => prefixed_eq _) ((accept_tells .bang).bind fun found q passed => ?_)
  cases found with
  | some t =>
    have fewer := passed.2.left_lt
    exact (ExprsTold.prefixed q (by omega)).bind fun _ r operand => .pure (Nat.lt_trans operand fewer)
  | none =>
    obtain ⟨rfl, -⟩ := passed
    apply (accept_tells .minus).bind
    intro found q passed
    cases found with
    | some t =>
      have fewer := passed.2.left_lt
      exact (ExprsTold.prefixed q (by omega)).bind fun _ r operand => .pure (Nat.lt_trans operand fewer)
    | none =>
      obtain ⟨rfl, -⟩ := passed
      exact exprs.ranged made _ short
termination_by p.left

omit made in
theorem ExprsTold.operations (level : Nat) (lhs : Expr) (p : Position answers) (short : p.left ≤ n) :
    Tells (operations exprFrom level lhs) p fun _ q => q.left ≤ p.left := by
  refine .step (fun _ => operations_eq _ level lhs) (currentKind_tells.bind ?_)
  intro kind _ given
  obtain ⟨rfl, -⟩ := given
  split
  case h_1 => exact .pure (Nat.le_refl _)
  case h_2 =>
    split
    · exact .pure (Nat.le_refl _)
    · apply advance_tells.bind
      intro t q takes
      have fewer := takes.left_lt
      apply (exprs _ q (by omega)).bind
      intro rhs r right
      exact (ExprsTold.operations level _ r (by omega)).imp fun _ s more => by omega
termination_by p.left

end Rules

theorem exprs_told {answers : List Answer} (made : ∀ t, .ok t ∈ answers → t.Made) (n : Nat) :
    ExprsTold answers n := by
  induction n with
  | zero => exact fun _ _ short => absurd short (Nat.not_lt_zero _)
  | succ n exprs =>
    intro level p short
    have short := Nat.le_of_lt_succ short
    refine .step (fun _ => exprFrom_eq _ level) ((exprs.prefixed made p short).bind fun lhs q operand => ?_)
    exact (exprs.operations level lhs q (by omega)).imp fun _ r more => Nat.lt_of_le_of_lt more operand

theorem expr_tells {answers : List Answer} (made : ∀ t, .ok t ∈ answers → t.Made)
    (p : Position answers) : Tells expr p (Advances p) :=
  (exprs_told made _).expr p (Nat.lt_succ_self _)

end Grammar

end Frontend
