import Frontend.Proofs.NodeCompleteness
import Frontend.Proofs.ExprSoundness

-- Declarations that are read are derived.  A list of declarations comes behind a token or behind a
-- declaration, so the number of tokens ahead is what the induction is on, as it is for expressions.

namespace Frontend.Grammar

open Surface TokenSource Feed

section Tokens

variable {ts : List Token}

theorem expectAny_gives (kinds : List TokenKind) :
    Gives (expectAny kinds) ts fun t rest => t.kind ∈ kinds ∧ ts = t :: rest := by
  apply current_gives.bind
  intro _ _ given
  obtain ⟨rfl, rfl⟩ := given
  cases ts with
  | nil => exact .endOfInput
  | cons t ts =>
    by_cases within : t.kind ∈ kinds
    · simp only [List.head?_cons, within, if_true]
      refine advance_gives.imp ?_
      intro _ _ equal
      cases equal
      exact ⟨within, rfl⟩
    · simp only [List.head?_cons, within, if_false]
      exact .failAt

theorem typeExpr_gives :
    Gives typeExpr ts fun ty rest => ∃ us, Spells (.type ty) us ∧ ts = us ++ rest := by
  refine .step (fun _ => typeExpr_unfold _) (identifier_gives.bind ?_)
  intro _ behind given
  obtain ⟨id, named, rfl, rfl⟩ := given
  refine generics_gives.bind fun found rest passed => .pure ?_
  cases found with
  | none =>
    obtain ⟨rfl, -⟩ := passed
    exact ⟨[id], .name named, rfl⟩
  | some args =>
    obtain ⟨list, spells, rfl⟩ := passed
    exact ⟨id :: list, .applied named spells, rfl⟩

theorem afterNames_gives (ts : List Token) : Gives (afterCommas identifier) ts fun names rest =>
    ∀ id : Token, id.kind = .identifier →
      ∃ us, SpellsNames (id.text :: names) (id :: us) ∧ ts = us ++ rest := by
  refine .step (fun _ => afterNames_eq _) ((accept_gives .comma).bind fun comma others passed => ?_)
  cases comma with
  | none =>
    obtain rfl := passed
    exact .pure fun id named => ⟨[], .one named, rfl⟩
  | some comma =>
    obtain ⟨separates, rfl⟩ := passed
    apply identifier_gives.bind
    intro _ behind given
    obtain ⟨second, named, rfl, rfl⟩ := given
    refine (afterNames_gives behind).bind fun names rest more => .pure fun id first => ?_
    obtain ⟨us, spells, rfl⟩ := more second named
    exact ⟨comma :: second :: us, .more first separates spells, rfl⟩
termination_by ts.length

theorem genericNames_gives :
    Gives genericNames? ts fun generics rest => ∃ us, SpellsGenerics generics us ∧ ts = us ++ rest := by
  apply (accept_gives .less).bind
  intro opening others passed
  cases opening with
  | none =>
    obtain rfl := passed
    exact .pure ⟨[], .none, rfl⟩
  | some opening =>
    obtain ⟨opens, rfl⟩ := passed
    apply identifier_gives.bind
    intro _ behind given
    obtain ⟨id, named, rfl, rfl⟩ := given
    apply (afterNames_gives behind).bind
    intro names mid more
    obtain ⟨us, spells, rfl⟩ := more id named
    refine (expect_gives .greater).bind fun closing rest given => .pure ?_
    obtain ⟨closes, rfl⟩ := given
    exact ⟨_, .names opens spells closes, by simp⟩

theorem bindingKeyword_gives : Gives bindingKeyword ts fun modifiers rest =>
    ∃ keyword, Introduces keyword.kind modifiers ∧ ts = keyword :: rest := by
  refine (expectAny_gives [.varKeyword, .valKeyword]).bind fun keyword rest given => .pure ?_
  obtain ⟨within, rfl⟩ := given
  refine ⟨keyword, ?_, rfl⟩
  simp only [List.mem_cons, List.not_mem_nil, or_false] at within
  rcases within with same | same <;> rw [same]
  · exact .var
  · exact .val

theorem parameter_gives :
    Gives parameter ts fun p rest => ∃ us, SpellsParameter p us ∧ ts = us ++ rest := by
  apply bindingKeyword_gives.bind
  intro modifiers _ given
  obtain ⟨keyword, introduces, rfl⟩ := given
  apply identifier_gives.bind
  intro _ _ given
  obtain ⟨id, named, rfl, rfl⟩ := given
  apply (expect_gives .colon).bind
  intro colon _ given
  obtain ⟨isColon, rfl⟩ := given
  refine typeExpr_gives.bind fun ty rest given => .pure ?_
  obtain ⟨us, spells, rfl⟩ := given
  exact ⟨_, .typed introduces named isColon spells, rfl⟩

theorem SpellsParameter.filled {p : Parameter} (spells : SpellsParameter p ts) : 0 < ts.length := by
  cases spells
  exact Nat.succ_pos _

theorem parameters_gives (ts : List Token) : Gives (itemsUntil .rightParen parameter) ts fun ps rest =>
    ∃ us, SpellsParameters ps us ∧ ts = us ++ rest := by
  refine .step (fun _ => parametersUntil_eq _ _) ((isNext_gives .rightParen).bind ?_)
  intro closes _ same
  subst same
  cases closes with
  | true => exact .pure ⟨[], .none, rfl⟩
  | false =>
    apply parameter_gives.bind
    intro p behind first
    obtain ⟨us, first, rfl⟩ := first
    have filled := first.filled
    apply (accept_gives .comma).bind
    intro comma others passed
    cases comma with
    | none =>
      obtain rfl := passed
      exact .pure ⟨us, .last first, rfl⟩
    | some comma =>
      obtain ⟨separates, rfl⟩ := passed
      have fewer : others.length < (us ++ comma :: others).length := by
        simp only [List.length_append, List.length_cons]
        omega
      refine (parameters_gives others).bind fun ps rest more => .pure ?_
      obtain ⟨vs, more, rfl⟩ := more
      exact ⟨_, .more first separates more, by simp⟩
termination_by ts.length

theorem constructor_gives : Gives constructor? ts fun constructor rest =>
    ∃ us, SpellsConstructor constructor us ∧ ts = us ++ rest := by
  apply (accept_gives .leftParen).bind
  intro opening others passed
  cases opening with
  | none =>
    obtain rfl := passed
    exact .pure ⟨[], .none, rfl⟩
  | some opening =>
    obtain ⟨opens, rfl⟩ := passed
    apply (parameters_gives others).bind
    intro ps _ given
    obtain ⟨us, spells, rfl⟩ := given
    refine (expect_gives .rightParen).bind fun closing rest given => .pure ?_
    obtain ⟨closes, rfl⟩ := given
    exact ⟨_, .parameters opens spells closes, by simp⟩

theorem annotation_gives :
    Gives annotation? ts fun ty rest => ∃ us, SpellsAnnotation ty us ∧ ts = us ++ rest := by
  apply (accept_gives .colon).bind
  intro colon others passed
  cases colon with
  | none =>
    obtain rfl := passed
    exact .pure ⟨[], .none, rfl⟩
  | some colon =>
    obtain ⟨isColon, rfl⟩ := passed
    refine typeExpr_gives.bind fun ty rest given => .pure ?_
    obtain ⟨us, spells, rfl⟩ := given
    exact ⟨_, .type isColon spells, rfl⟩

theorem signedInteger_gives (negative : Bool) : Gives (signedInteger negative) ts fun value rest =>
    ∃ number n, number.kind = .integer ∧ number.value = some (.integer n) ∧
      value = (if negative then -n else n) ∧ ts = number :: rest := by
  apply (expect_gives .integer).bind
  intro number rest given
  obtain ⟨isNumber, rfl⟩ := given
  split
  case h_1 n valued => exact .pure ⟨number, n, isNumber, valued, rfl, rfl⟩
  case h_2 => exact .failAt

theorem memberValue_gives (member : Token) (next : Option Int64) :
    Gives (memberValue member next) ts fun value rest =>
      ∃ given us, SpellsValue given us ∧ given.or next = some value ∧ ts = us ++ rest := by
  unfold memberValue
  apply (accept_gives .assign).bind
  intro assign others passed
  cases assign with
  | none =>
    obtain rfl := passed
    cases next with
    | none => exact .failAt
    | some value => exact .pure ⟨none, [], .none, rfl, rfl⟩
  | some assign =>
    obtain ⟨assigns, rfl⟩ := passed
    apply (accept_gives .minus).bind
    intro minus others passed
    refine (signedInteger_gives minus.isSome).imp fun value rest given => ?_
    obtain ⟨number, n, isNumber, valued, rfl, rfl⟩ := given
    cases minus with
    | none =>
      obtain rfl := passed
      exact ⟨some n, _, .plain assigns isNumber valued, rfl, rfl⟩
    | some minus =>
      obtain ⟨isMinus, rfl⟩ := passed
      exact ⟨some (-n), _, .negative assigns isMinus isNumber valued, rfl, rfl⟩

theorem members_gives (enumName : String) (next : Option Int64) (ts : List Token) :
    Gives (enumMembers enumName next) ts fun nodes rest =>
      ∃ us, SpellsMembers enumName next nodes us ∧ ts = us ++ rest := by
  refine .step (fun _ => enumMembers_eq _ enumName next) ((accept_gives .identifier).bind ?_)
  intro id others passed
  cases id with
  | none =>
    obtain rfl := passed
    exact .pure ⟨[], .none, rfl⟩
  | some id =>
    obtain ⟨named, rfl⟩ := passed
    apply (memberValue_gives id next).bind
    intro value behind given
    obtain ⟨given, us, spells, decided, rfl⟩ := given
    apply (accept_gives .comma).bind
    intro comma others passed
    cases comma with
    | none =>
      obtain rfl := passed
      exact .pure ⟨_, .last named spells decided, rfl⟩
    | some comma =>
      obtain ⟨separates, rfl⟩ := passed
      have fewer : others.length < (id :: (us ++ comma :: others)).length := by
        simp only [List.length_append, List.length_cons]
        omega
      refine (members_gives enumName (successor? value) others).bind fun nodes rest more => .pure ?_
      obtain ⟨vs, more, rfl⟩ := more
      exact ⟨_, .more named spells decided separates more, by simp⟩
termination_by ts.length

end Tokens

def NodePhrase.least : NodePhrase → Nat
  | .node _ _ => 1
  | _ => 0

theorem Declares.shorter {endings : Endings} {phrase : NodePhrase} {ts rest : List Token}
    (declares : Declares endings phrase ts rest) : rest.length + phrase.least ≤ ts.length := by
  induction declares with
  | ret _ derives _ | value _ derives _ | computed _ _ derives _ =>
    have shorter := derives.shorter_behind
    simp only [NodePhrase.least, List.length_cons] at *
    omega
  | _ =>
    simp only [NodePhrase.least, List.length_cons, List.length_append] at *
    omega

-- From `ts` on, the declaration is derived if there is one, and without one no token was taken.
def Found (place : Place) (ts : List Token) : Option Node → List Token → Prop
  | some node, rest => Declares .required (.node place node) ts rest
  | none, rest => ts = rest

-- Of fewer than `n` tokens, the declarations that are read are derived.
def NodesDerived (n : Nat) : Prop :=
  ∀ place ts, ts.length < n →
    Gives (declarations place) ts fun nodes rest => Declares .required (.nodes place nodes) ts rest

section Rules

variable {n : Nat} {ts : List Token}

theorem expr_gives : Gives expr ts fun e rest => Derives (.infixed 0 e) ts rest :=
  (exprs_derived _).expr ts (Nat.lt_succ_self _)

theorem enum_gives : Gives enum? ts (Found .scope ts) := by
  apply (accept_gives .enumKeyword).bind
  intro keyword others passed
  cases keyword with
  | none =>
    obtain rfl := passed
    exact .pure rfl
  | some keyword =>
    obtain ⟨enum, rfl⟩ := passed
    apply identifier_gives.bind
    intro _ _ given
    obtain ⟨id, named, rfl, rfl⟩ := given
    apply (expect_gives .leftBrace).bind
    intro opening _ given
    obtain ⟨opens, rfl⟩ := given
    apply (members_gives id.text (some 0) _).bind
    intro members _ given
    obtain ⟨us, spells, rfl⟩ := given
    refine (expect_gives .rightBrace).bind fun closing rest given => .pure ?_
    obtain ⟨closes, rfl⟩ := given
    exact .enumeration enum named opens spells closes

theorem return_gives : Gives return? ts (Found .getter ts) := by
  apply (accept_gives .returnKeyword).bind
  intro keyword others passed
  cases keyword with
  | none =>
    obtain rfl := passed
    exact .pure rfl
  | some keyword =>
    obtain ⟨returns, rfl⟩ := passed
    apply expr_gives.bind
    intro e _ derives
    refine (expect_gives .semicolon).bind fun semicolon rest given => .pure ?_
    obtain ⟨ends, rfl⟩ := given
    exact .ret returns derives ends

variable (nodes : NodesDerived n)

include nodes

theorem NodesDerived.class (short : ts.length ≤ n) :
    Gives (class? (declarations .scope)) ts (Found .scope ts) := by
  apply (accept_gives .classKeyword).bind
  intro keyword others passed
  cases keyword with
  | none =>
    obtain rfl := passed
    exact .pure rfl
  | some keyword =>
    obtain ⟨introduces, rfl⟩ := passed
    apply identifier_gives.bind
    intro _ _ given
    obtain ⟨id, named, rfl, rfl⟩ := given
    apply genericNames_gives.bind
    intro generics _ given
    obtain ⟨us, generic, rfl⟩ := given
    apply constructor_gives.bind
    intro constructor _ given
    obtain ⟨vs, constructs, rfl⟩ := given
    apply (expectAny_gives [.leftBrace, .semicolon]).bind
    intro opening behind given
    obtain ⟨within, rfl⟩ := given
    simp only [List.length_cons, List.length_append] at short
    rw [← List.cons_append, ← List.cons_append, ← List.append_assoc]
    split
    case isTrue opens =>
      apply (nodes .scope behind (by omega)).bind
      intro children _ body
      refine (expect_gives .rightBrace).bind fun closing rest given => .pure ?_
      obtain ⟨closes, rfl⟩ := given
      exact .classDecl introduces named generic constructs opens body closes
    case isFalse other =>
      have ends : opening.kind = .semicolon := by grind
      exact .pure (.bodiless introduces named generic constructs ends)

-- What is behind the keyword of a getter is the rest of any variable.
theorem NodesDerived.getterBody (short : ts.length ≤ n) :
    Gives (getterBody (declarations .getter)) ts fun found rest =>
      ∀ keyword : Token, keyword.kind = .getKeyword → ∀ name ty,
        Declares .required
          (.ending name ty none (some ⟨false, getterName name, ty, [], found.2, found.1⟩))
          (keyword :: ts) rest := by
  apply (accept_gives .assign).bind
  intro assign others passed
  cases assign with
  | some assign =>
    obtain ⟨assigns, rfl⟩ := passed
    apply expr_gives.bind
    intro e _ derives
    refine (expect_gives .semicolon).bind fun semicolon rest given => .pure ?_
    obtain ⟨ends, rfl⟩ := given
    exact fun _ gets _ _ => .computed gets assigns derives ends
  | none =>
    obtain rfl := passed
    apply (expect_gives .leftBrace).bind
    intro opening behind given
    obtain ⟨opens, rfl⟩ := given
    apply (nodes .getter behind short).bind
    intro children _ body
    refine (expect_gives .rightBrace).bind fun closing rest given => .pure ?_
    obtain ⟨closes, rfl⟩ := given
    exact fun _ gets _ _ => .getter gets opens body closes

theorem NodesDerived.bindingRest (short : ts.length ≤ n) (id : Token) (ty : Option Expr) :
    Gives (bindingRest id ty (declarations .getter)) ts fun found rest =>
      Declares .required (.ending id.text ty found.1 found.2) ts rest := by
  apply (accept_gives .assign).bind
  intro assign others passed
  cases assign with
  | some assign =>
    obtain ⟨assigns, rfl⟩ := passed
    apply expr_gives.bind
    intro e _ derives
    refine (expect_gives .semicolon).bind fun semicolon rest given => .pure ?_
    obtain ⟨ends, rfl⟩ := given
    exact .value assigns derives ends
  | none =>
    obtain rfl := passed
    apply (accept_gives .getKeyword).bind
    intro keyword others passed
    cases keyword with
    | some keyword =>
      obtain ⟨gets, rfl⟩ := passed
      exact (nodes.getterBody (Nat.le_of_succ_le short)).bind fun found rest got =>
        .pure (got keyword gets id.text ty)
    | none =>
      obtain rfl := passed
      cases ty with
      | none => exact .failAt
      | some ty =>
        refine (expect_gives .semicolon).bind fun semicolon rest given => .pure ?_
        obtain ⟨ends, rfl⟩ := given
        exact .typed ends

theorem NodesDerived.binding (short : ts.length ≤ n) (place : Place) :
    Gives (binding? (declarations .getter)) ts (Found place ts) := by
  apply currentKind_gives.bind
  intro kind _ given
  obtain ⟨rfl, -⟩ := given
  split
  case isFalse => exact .pure rfl
  case isTrue =>
    apply bindingKeyword_gives.bind
    intro modifiers _ given
    obtain ⟨keyword, introduces, rfl⟩ := given
    apply (expect_gives .identifier).bind
    intro id _ given
    obtain ⟨named, rfl⟩ := given
    apply annotation_gives.bind
    intro ty behind given
    obtain ⟨us, annotates, rfl⟩ := given
    simp only [List.length_cons, List.length_append] at short
    refine (nodes.bindingRest (by omega) id ty).bind fun found rest ending => .pure ?_
    exact .binding introduces named annotates ending

theorem NodesDerived.declaration (short : ts.length ≤ n) (place : Place) :
    Gives (declaration? declarations place) ts (Found place ts) := by
  cases place with
  | scope =>
    apply enum_gives.bind
    intro enum _ found
    cases enum with
    | some node => exact .pure found
    | none =>
      obtain rfl := found
      apply (nodes.class short).bind
      intro class_ _ found
      cases class_ with
      | some node => exact .pure found
      | none =>
        obtain rfl := found
        exact nodes.binding short .scope
  | getter =>
    apply (nodes.binding short .getter).bind
    intro binding _ found
    cases binding with
    | some node => exact .pure found
    | none =>
      obtain rfl := found
      exact return_gives

end Rules

theorem nodes_derived (n : Nat) : NodesDerived n := by
  induction n with
  | zero => exact fun _ _ short => absurd short (Nat.not_lt_zero _)
  | succ n nodes =>
    intro place ts short
    have short := Nat.le_of_lt_succ short
    refine .step (fun _ => declarations_eq _ place) ((nodes.declaration short place).bind ?_)
    intro node behind found
    cases node with
    | none =>
      obtain rfl := found
      exact .pure .none
    | some node =>
      have shorter := found.shorter
      simp only [NodePhrase.least] at shorter
      exact (nodes place behind (by omega)).bind fun others rest more => .pure (found.more more)

end Frontend.Grammar
