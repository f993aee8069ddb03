import Frontend.Proofs.Enumerations
import Frontend.Proofs.Numbering
import Frontend.Proofs.TokenValues

-- The members of an enum as they are written, and the values that they are read with.

namespace Frontend

theorem Token.Spelled.integer_nonneg {t : Token} {n : Int64} (spelled : t.Spelled) (kind : t.kind = .integer)
    (valued : t.value = some (.integer n)) : 0 ≤ n.toInt := by
  rw [Token.Spelled, kind, valued, spelledValue] at spelled
  obtain ⟨m, worth, same⟩ := Option.map_eq_some_iff.1 spelled.symm
  cases same
  rw [Value.integerOfDigits?] at worth
  split at worth
  · next small =>
    cases worth
    rw [Int64.toInt_ofNat_of_lt (by omega)]
    exact Int.natCast_nonneg _
  · cases worth

theorem Token.Spelled.toInt_neg {t : Token} {n : Int64} (spelled : t.Spelled) (kind : t.kind = .integer)
    (valued : t.value = some (.integer n)) : (-n).toInt = -n.toInt := by
  have least := spelled.integer_nonneg kind valued
  have most := n.toInt_lt
  rw [Int64.toInt_neg, Int.bmod_eq_of_le (by omega) (by omega)]

namespace Grammar

open Surface

variable {ts us rest : List Token} {given : Option Int} {next : Option Int64}

-- ['=' ['-'] integer], and the number that is written.
inductive WritesValue : Option Int → List Token → Prop where
  | none : WritesValue none []
  | plain {assign number : Token} {n : Int64} : assign.kind = .assign → number.kind = .integer →
      number.value = some (.integer n) → WritesValue (some n.toInt) [assign, number]
  | negative {assign minus number : Token} {n : Int64} : assign.kind = .assign →
      minus.kind = .minus → number.kind = .integer → number.value = some (.integer n) →
      WritesValue (some (-n.toInt)) [assign, minus, number]

-- The name of a member, and its value if one is written for it.
structure Member where
  id : Token
  given : Option Int

-- Any number of members with commas between them, and maybe one behind the last.
inductive WritesMembers : List Member → List Token → Prop where
  | none : WritesMembers [] []
  | last {id : Token} {given : Option Int} {ts : List Token} : id.kind = .identifier →
      WritesValue given ts → WritesMembers [⟨id, given⟩] (id :: ts)
  | more {id comma : Token} {given : Option Int} {members : List Member} {ts us : List Token} :
      id.kind = .identifier → WritesValue given ts → comma.kind = .comma → WritesMembers members us →
      WritesMembers (⟨id, given⟩ :: members) (id :: ts ++ comma :: us)

-- 'enum' ID '{' members '}'
inductive WritesEnum : String → List Member → List Token → Prop where
  | enum {keyword id opening closing : Token} {members : List Member} {ts : List Token} :
      keyword.kind = .enumKeyword → id.kind = .identifier → opening.kind = .leftBrace →
      WritesMembers members ts → closing.kind = .rightBrace →
      WritesEnum id.text members (keyword :: id :: opening :: ts ++ [closing])

def givenValues (members : List Member) : List (Option Int) := members.map Member.given

-- The members with these values, as they are read.
def memberNodes (enumName : String) (members : List Member) (values : List Int64) : List Node :=
  List.zipWith (fun member value => .binding (memberDecl enumName member.id.text value)) members values

theorem WritesValue.unique {given' : Option Int} {rest' : List Token} (writes : WritesValue given ts)
    (again : WritesValue given' us) (same : ts ++ rest = us ++ rest') (other : Next (· ≠ .assign) rest)
    (other' : Next (· ≠ .assign) rest') : given = given' ∧ rest = rest' := by
  cases writes with
  | none =>
    cases again with
    | none => exact ⟨rfl, same⟩
    | plain assigns | negative assigns =>
      subst same
      exact absurd assigns (other _ rfl)
  | plain assigns number valued =>
    cases again with
    | none =>
      subst same
      exact absurd assigns (other' _ rfl)
    | plain _ _ valued' =>
      cases same
      cases valued.symm.trans valued'
      exact ⟨rfl, rfl⟩
    | negative _ minus _ _ =>
      cases same
      exact absurd (minus.symm.trans number) (by decide)
  | negative assigns minus _ valued =>
    cases again with
    | none =>
      subst same
      exact absurd assigns (other' _ rfl)
    | plain _ number _ =>
      cases same
      exact absurd (minus.symm.trans number) (by decide)
    | negative _ _ _ valued' =>
      cases same
      cases valued.symm.trans valued'
      exact ⟨rfl, rfl⟩

theorem WritesMembers.unique {members members' : List Member} {closing closing' : Token} {rest' : List Token}
    (writes : WritesMembers members ts) (again : WritesMembers members' us)
    (same : ts ++ closing :: rest = us ++ closing' :: rest') (closes : closing.kind = .rightBrace)
    (closes' : closing'.kind = .rightBrace) : members = members' := by
  have apart {t : Token} {kind : TokenKind} {others : List Token} (is : t.kind = kind)
      (differs : kind ≠ .assign := by decide) : Next (· ≠ .assign) (t :: others) := .cons (is ▸ differs)
  have clash {t : Token} {kind : TokenKind} (is : t.kind = kind) (brace : t.kind = .rightBrace)
      (differs : kind ≠ .rightBrace := by decide) : False := differs (is.symm.trans brace)
  induction writes generalizing us members' with
  | none =>
    cases again with
    | none => rfl
    | last named | more named =>
      cases same
      exact (clash named closes).elim
  | last named value =>
    cases again with
    | none =>
      cases same
      exact (clash named closes').elim
    | last _ value' =>
      obtain ⟨rfl, behind⟩ := List.cons_eq_cons.1 same
      obtain ⟨rfl, -⟩ := value.unique value' behind (apart closes) (apart closes')
      rfl
    | more _ value' separates =>
      rw [List.append_assoc] at same
      obtain ⟨rfl, behind⟩ := List.cons_eq_cons.1 same
      obtain ⟨-, last⟩ := value.unique value' behind (apart closes) (apart separates)
      cases last
      exact (clash separates closes).elim
  | more named value separates _ ih =>
    rw [List.append_assoc] at same
    cases again with
    | none =>
      cases same
      exact (clash named closes').elim
    | last _ value' =>
      obtain ⟨rfl, behind⟩ := List.cons_eq_cons.1 same
      obtain ⟨-, last⟩ := value.unique value' behind (apart separates) (apart closes')
      cases last
      exact (clash separates closes').elim
    | more _ value' separates' others' =>
      rw [List.append_assoc] at same
      obtain ⟨rfl, behind⟩ := List.cons_eq_cons.1 same
      obtain ⟨rfl, last⟩ := value.unique value' behind (apart separates) (apart separates')
      obtain ⟨-, others⟩ := List.cons_eq_cons.1 last
      rw [ih others' others]

theorem WritesEnum.unique {name name' : String} {members members' : List Member} {behind behind' : List Token}
    (writes : WritesEnum name members ts) (again : WritesEnum name' members' us)
    (same : ts ++ behind = us ++ behind') : name = name' ∧ members = members' := by
  cases writes with
  | enum _ _ _ list closes =>
    cases again with
    | enum _ _ _ list' closes' =>
      simp only [List.cons_append, List.append_assoc, List.cons.injEq] at same
      obtain ⟨-, rfl, -, same⟩ := same
      exact ⟨rfl, list.unique list' same closes closes'⟩

-- A value that is written fits, for a number of a source is not negative by itself.

theorem SpellsValue.written {value : Option Int64} (spells : SpellsValue value ts)
    (spelled : ∀ t ∈ ts, t.Spelled) : WritesValue (value.map Int64.toInt) ts := by
  cases spells with
  | none => exact .none
  | plain assign number valued => exact .plain assign number valued
  | @negative _ _ number n assign minus isNumber valued =>
    have last : number.Spelled := spelled number (by simp)
    rw [Option.map_some, last.toInt_neg isNumber valued]
    exact .negative assign minus isNumber valued

theorem WritesValue.spelled (writes : WritesValue given ts) (spelled : ∀ t ∈ ts, t.Spelled) :
    ∃ value, SpellsValue value ts ∧ given = value.map Int64.toInt := by
  cases writes with
  | none => exact ⟨Option.none, .none, rfl⟩
  | plain assign number valued => exact ⟨some _, .plain assign number valued, rfl⟩
  | @negative _ _ number n assign minus isNumber valued =>
    have last : number.Spelled := spelled number (by simp)
    exact ⟨some (-n), .negative assign minus isNumber valued, congrArg some (last.toInt_neg isNumber valued).symm⟩

theorem SpellsMembers.counted {enumName : String} {nodes : List Node} (spells : SpellsMembers enumName next nodes ts)
    (spelled : ∀ t ∈ ts, t.Spelled) : ∃ members values, WritesMembers members ts ∧
      Counts next (givenValues members) values ∧ nodes = memberNodes enumName members values := by
  induction spells with
  | none => exact ⟨[], [], .none, .none, rfl⟩
  | @last next value id v ts named spells decided =>
    have writes := spells.written fun t within => spelled t (List.mem_cons_of_mem _ within)
    exact ⟨[⟨id, _⟩], [v], .last named writes, .cons decided .none, rfl⟩
  | @more next value id comma v nodes ts us named spells decided separates _ ih =>
    have writes := spells.written fun t within => spelled t (by simp [within])
    obtain ⟨members, values, others, counts, rfl⟩ := ih fun t within => spelled t (by simp [within])
    exact ⟨⟨id, _⟩ :: members, v :: values, .more named writes separates others, .cons decided counts, rfl⟩

theorem WritesMembers.counted {members : List Member} {values : List Int64} (writes : WritesMembers members ts)
    (enumName : String) (spelled : ∀ t ∈ ts, t.Spelled) (counts : Counts next (givenValues members) values) :
    SpellsMembers enumName next (memberNodes enumName members values) ts := by
  induction writes generalizing next values with
  | none =>
    cases counts
    exact .none
  | @last id given ts named writes =>
    obtain ⟨value, spells, rfl⟩ := writes.spelled fun t within => spelled t (List.mem_cons_of_mem _ within)
    obtain ⟨v, rest, rfl, decided, later⟩ := Counts.uncons counts
    obtain rfl := later.nil
    exact .last named spells decided
  | @more id comma given members ts us named writes separates _ ih =>
    obtain ⟨value, spells, rfl⟩ := writes.spelled fun t within => spelled t (by simp [within])
    obtain ⟨v, rest, rfl, decided, later⟩ := Counts.uncons counts
    exact .more named spells decided separates (ih (fun t within => spelled t (by simp [within])) later)

theorem WritesMembers.fits {members : List Member} (writes : WritesMembers members ts)
    (spelled : ∀ t ∈ ts, t.Spelled) : ∀ v, some v ∈ givenValues members → ∃ n : Int64, n.toInt = v := by
  induction writes with
  | none => exact nofun
  | last named writes =>
    obtain ⟨value, -, rfl⟩ := writes.spelled fun t within => spelled t (List.mem_cons_of_mem _ within)
    intro v among
    obtain ⟨w, -, same⟩ := Option.map_eq_some_iff.1 (List.mem_singleton.1 among).symm
    exact ⟨w, same⟩
  | more named writes separates _ ih =>
    obtain ⟨value, -, rfl⟩ := writes.spelled fun t within => spelled t (by simp [within])
    intro v among
    rcases List.mem_cons.1 among with here | later
    · obtain ⟨w, -, same⟩ := Option.map_eq_some_iff.1 here.symm
      exact ⟨w, same⟩
    · exact ih (fun t within => spelled t (by simp [within])) v later

theorem WritesEnum.fits {name : String} {members : List Member} (writes : WritesEnum name members ts)
    (spelled : ∀ t ∈ ts, t.Spelled) : ∀ v, some v ∈ givenValues members → ∃ n : Int64, n.toInt = v := by
  cases writes with
  | enum _ _ _ writes _ => exact writes.fits fun t within => spelled t (by simp [within])

end Grammar

end Frontend
