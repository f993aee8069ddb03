import Frontend.Proofs.Attempts

-- The grammar of expressions, apart from how they are read.  Where a phrase ends is part of its derivation,
-- because a name followed by a closed list of types takes the list: what may stand behind a phrase depends on
-- more than its own tokens.

namespace Frontend.Grammar

open Surface TokenSource Feed

-- The infix operators, level by level; a later level binds more tightly.
def infixLevels : List (List (TokenKind × BinaryOperator)) :=
  [ [(.equal, .equal), (.notEqual, .notEqual)],
    [(.less, .less), (.lessEqual, .lessEqual), (.greater, .greater), (.greaterEqual, .greaterEqual)],
    [(.plus, .add), (.minus, .sub)],
    [(.star, .mul), (.slash, .div)] ]

-- A token of this kind writes the operator `op` of the given level.
def Writes (kind : TokenKind) (op : BinaryOperator) (level : Nat) : Prop :=
  ∃ ops, infixLevels[level]? = some ops ∧ (kind, op) ∈ ops

-- An operator that a token of this kind writes is of a lower level.
def Below (level : Nat) (kind : TokenKind) : Prop := ∀ op own, Writes kind op own → own < level

def literalKinds : List TokenKind := [.trueKeyword, .falseKeyword, .integer, .double]

inductive ExprPhrase where
  -- An expression whose outermost infix operator, if it has one, is of the given level or a higher one.
  | infixed (level : Nat) (e : Expr)
  | prefixed (e : Expr)
  | ranged (e : Expr)
  | postfixed (e : Expr)
  | primary (e : Expr)
  -- Any number of expressions with commas between them, and maybe one behind the last.
  | items (es : List Expr)
  -- The texts and expressions of a string from behind its opening quote.
  | pieces (parts : List Expr)

-- The first tokens of `ts` are a closed list of types.
def Encloses (ts : List Token) : Prop := ∃ args us rest, Spells (.closed args) us ∧ ts = us ++ rest

-- The literal text of a string among its parts: an empty one is left out.
def literalText (text : String) : List Expr := if text = "" then [] else [.literal (.string text)]

-- The first tokens of a list are the phrase, and `rest` are those behind it.
inductive Derives : ExprPhrase → List Token → List Token → Prop where
  | operand {level : Nat} {e : Expr} {ts rest : List Token} : Derives (.prefixed e) ts rest →
      Derives (.infixed level e) ts rest
  | binary {level own : Nat} {op : BinaryOperator} {lhs rhs : Expr} {t : Token}
      {ts mid rest : List Token} : level ≤ own → Derives (.infixed own lhs) ts (t :: mid) →
      Writes t.kind op own → Derives (.infixed (own + 1) rhs) mid rest →
      Derives (.infixed level (.binary op lhs rhs)) ts rest
  | not {e : Expr} {t : Token} {ts rest : List Token} : t.kind = .bang →
      Derives (.prefixed e) ts rest → Derives (.prefixed (.unary .not e)) (t :: ts) rest
  | negate {e : Expr} {t : Token} {ts rest : List Token} : t.kind = .minus →
      Derives (.prefixed e) ts rest → Derives (.prefixed (.unary .negate e)) (t :: ts) rest
  | unprefixed {e : Expr} {ts rest : List Token} : Derives (.ranged e) ts rest →
      Derives (.prefixed e) ts rest
  | single {e : Expr} {ts rest : List Token} : Derives (.postfixed e) ts rest →
      Derives (.ranged e) ts rest
  | range {first last : Expr} {t : Token} {ts mid rest : List Token} :
      Derives (.postfixed first) ts (t :: mid) → t.kind = .dotDot →
      Derives (.postfixed last) mid rest →
      Derives (.ranged (.call (.ident "Range" none) [first, last])) ts rest
  | plain {e : Expr} {ts rest : List Token} : Derives (.primary e) ts rest →
      Derives (.postfixed e) ts rest
  | member {e : Expr} {dot id : Token} {ts rest : List Token} :
      Derives (.postfixed e) ts (dot :: id :: rest) → dot.kind = .dot → id.kind = .identifier →
      Derives (.postfixed (.binary .member e (.ident id.text none))) ts rest
  | call {e : Expr} {args : List Expr} {opening closing : Token} {ts mid rest : List Token} :
      Derives (.postfixed e) ts (opening :: mid) → opening.kind = .leftParen →
      Derives (.items args) mid (closing :: rest) → closing.kind = .rightParen →
      Derives (.postfixed (.call e args)) ts rest
  | element {e : Expr} {args : List Expr} {opening closing : Token} {ts mid rest : List Token} :
      Derives (.postfixed e) ts (opening :: mid) → opening.kind = .leftBracket →
      Derives (.items args) mid (closing :: rest) → closing.kind = .rightBracket →
      Derives (.postfixed (.call (.binary .member e (.ident "Get" none)) args)) ts rest
  | literal {t : Token} {value : Value} {rest : List Token} : t.kind ∈ literalKinds →
      t.value = some value → Derives (.primary (.literal value)) (t :: rest) rest
  | name {id : Token} {rest : List Token} : id.kind = .identifier → ¬ Encloses rest →
      Derives (.primary (.ident id.text none)) (id :: rest) rest
  -- A closed list behind a name is the type arguments of the name.
  | generic {id : Token} {args : List Expr} {list rest : List Token} : id.kind = .identifier →
      Spells (.closed args) list → Derives (.primary (.ident id.text (some args))) (id :: list ++ rest) rest
  | group {e : Expr} {opening closing : Token} {ts rest : List Token} : opening.kind = .leftParen →
      Derives (.infixed 0 e) ts (closing :: rest) → closing.kind = .rightParen →
      Derives (.primary (.grouping e)) (opening :: ts) rest
  | list {es : List Expr} {opening closing : Token} {ts rest : List Token} :
      opening.kind = .leftBracket → Derives (.items es) ts (closing :: rest) →
      closing.kind = .rightBracket → Derives (.primary (.call (.ident "List" none) es)) (opening :: ts) rest
  | string {opening text closing : Token} {rest : List Token} : opening.kind = .stringBegin →
      text.kind = .stringText → closing.kind = .stringEnd →
      Derives (.primary (.literal (.string text.text))) (opening :: text :: closing :: rest) rest
  -- A string with a segment in it is an interpolation.
  | interpolation {opening text closing : Token} {e : Expr} {parts : List Expr}
      {ts mid rest : List Token} : opening.kind = .stringBegin → text.kind = .stringText →
      Derives (.infixed 0 e) ts (closing :: mid) → closing.kind = .rightBrace →
      Derives (.pieces parts) mid rest →
      Derives (.primary (.interpolation (literalText text.text ++ e :: parts))) (opening :: text :: ts) rest
  | none {rest : List Token} : Derives (.items []) rest rest
  | last {e : Expr} {ts rest : List Token} : Derives (.infixed 0 e) ts rest →
      Derives (.items [e]) ts rest
  | more {e : Expr} {es : List Expr} {comma : Token} {ts mid rest : List Token} :
      Derives (.infixed 0 e) ts (comma :: mid) → comma.kind = .comma → Derives (.items es) mid rest →
      Derives (.items (e :: es)) ts rest
  | textEnd {text closing : Token} {rest : List Token} : text.kind = .stringText →
      closing.kind = .stringEnd → Derives (.pieces (literalText text.text)) (text :: closing :: rest) rest
  | segment {text closing : Token} {e : Expr} {parts : List Expr} {ts mid rest : List Token} :
      text.kind = .stringText → Derives (.infixed 0 e) ts (closing :: mid) →
      closing.kind = .rightBrace → Derives (.pieces parts) mid rest →
      Derives (.pieces (literalText text.text ++ e :: parts)) (text :: ts) rest

theorem writes_iff {kind : TokenKind} {op : BinaryOperator} {level : Nat} :
    Writes kind op level ↔ binaryOperator? kind = some (op, level) := by
  constructor
  · intro given
    obtain ⟨ops, found, within⟩ := given
    rcases level with _ | _ | _ | _ | level <;> cases found <;>
      simp only [List.mem_cons, Prod.mk.injEq, List.not_mem_nil, or_false] at within <;>
      grind [binaryOperator?]
  · intro found
    cases kind <;> cases found <;> exact ⟨_, rfl, by simp⟩

theorem Writes.level_lt {kind : TokenKind} {op : BinaryOperator} {own : Nat}
    (writes : Writes kind op own) : own < infixLevels.length := by
  obtain ⟨ops, found, -⟩ := writes
  exact (List.getElem?_eq_some_iff.1 found).1

theorem Writes.same_level {kind : TokenKind} {op op' : BinaryOperator} {own own' : Nat}
    (writes : Writes kind op own) (writes' : Writes kind op' own') : own = own' := by
  have found := writes_iff.1 writes
  rw [writes_iff.1 writes'] at found
  cases found
  rfl

theorem Below.raise {low high : Nat} {kind : TokenKind} (below : Below low kind) (le : low ≤ high) :
    Below high kind :=
  fun op own writes => Nat.lt_of_lt_of_le (below op own writes) le

def feedOf (ts : List Token) : Feed := ⟨ts.map .ok, none⟩

-- The next token, if there is one, is of such a kind.
def Next (p : TokenKind → Prop) (ts : List Token) : Prop := ∀ t ∈ ts.head?, p t.kind

theorem Next.nil {p : TokenKind → Prop} : Next p [] := by
  intro t found
  cases found

theorem Next.cons {p : TokenKind → Prop} {t : Token} {ts : List Token} (good : p t.kind) :
    Next p (t :: ts) := by
  intro u found
  cases found
  exact good

section Tokens

variable {eof : Span} {t : Token} {ts : List Token} {kind : TokenKind}

theorem advance_tokens : advance eof (feedOf (t :: ts)) = .ok t (feedOf ts) := rfl

theorem currentKind_tokens (ts : List Token) :
    currentKind eof (feedOf ts) = .ok (ts.head?.map Token.kind) (feedOf ts) := by
  cases ts <;> rfl

theorem accept_tokens (found : t.kind = kind) :
    accept? kind eof (feedOf (t :: ts)) = .ok (some t) (feedOf ts) :=
  accept_found found

theorem accept_next (other : Next (· ≠ kind) ts) : accept? kind eof (feedOf ts) = .ok none (feedOf ts) := by
  cases ts with
  | nil => rfl
  | cons t ts => exact accept_other (other t rfl)

theorem expect_tokens (found : t.kind = kind) :
    expect kind eof (feedOf (t :: ts)) = .ok t (feedOf ts) :=
  expect_found found

theorem isNext_tokens (found : t.kind = kind) :
    isNext kind eof (feedOf (t :: ts)) = .ok true (feedOf (t :: ts)) :=
  isNext_found found

theorem isNext_next (other : Next (· ≠ kind) ts) : isNext kind eof (feedOf ts) = .ok false (feedOf ts) := by
  cases ts with
  | nil => rfl
  | cons t ts => exact isNext_other (other t rfl)

theorem identifier_tokens (found : t.kind = .identifier) :
    identifier eof (feedOf (t :: ts)) = .ok t.text (feedOf ts) :=
  identifier_found found

-- Where there is no error ahead, type arguments are taken or they are not.
theorem generics_tokens {args : List Expr} {list : List Token} (spells : Spells (.closed args) list)
    (ts : List Token) :
    genericsAfterName typeExpr eof (feedOf (list ++ ts)) = .ok (some args) (feedOf ts) :=
  generics_begins ⟨list, spells, List.map_append⟩

theorem generics_none (open_ : ¬ Encloses ts) :
    genericsAfterName typeExpr eof (feedOf ts) = .ok none (feedOf ts) := by
  refine generics_neither ?_ ?_
  · intro args rest given
    obtain ⟨us, spells, same⟩ := given
    obtain ⟨vs, others, rfl, first, rfl⟩ := List.map_eq_append_iff.1 same
    rw [(List.map_inj_right fun _ _ => Except.ok.inj).1 first] at open_
    exact open_ ⟨args, us, others, spells, rfl⟩
  · intro e rest given
    obtain ⟨us, more, args, others, -, -, same, -⟩ := given
    have listed : (.error e : Answer) ∈ ts.map .ok := by rw [same]; simp
    obtain ⟨_, _, same⟩ := List.mem_map.1 listed
    cases same

end Tokens

end Frontend.Grammar
