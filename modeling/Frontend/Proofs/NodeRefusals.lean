import Frontend.Proofs.ExprRefusals
import Frontend.Proofs.SameTokens

-- Declarations that are refused, and where the syntax errors of a source are.

namespace Frontend

open TokenSource Surface Feed Scanner

namespace Grammar

section Parts

variable {answers : List Answer} {p : Position answers}

theorem genericNames_tells : Tells genericNames? p fun _ q => q.left ≤ p.left := by
  apply (accept_tells .less).bind
  intro opening q passed
  cases opening with
  | none => exact .pure (Nat.le_of_eq (congrArg _ passed.1))
  | some opening =>
    have opened := passed.2.left_lt
    apply identifier_tells.bind
    intro first r named
    apply (afterCommas_tells (fun _ => ground_id.name) (fun _ => identifier_tells) r).bind
    intro others s more
    refine (expect_tells .greater).bind fun closing u found => .pure ?_
    have closed := found.2.left_lt
    omega

theorem bindingKeyword_tells : Tells bindingKeyword p fun _ q =>
    ∃ keyword, keyword.kind ∈ [TokenKind.varKeyword, .valKeyword] ∧ p.Takes [keyword] q :=
  (expectAny_tells _).bind fun keyword _ found => .pure ⟨keyword, found⟩

theorem parameter_tells : Tells parameter p (Advances p) := by
  apply bindingKeyword_tells.bind
  intro modifiers q found
  obtain ⟨keyword, -, takes⟩ := found
  have begun := takes.left_lt
  apply identifier_tells.bind
  intro name r named
  apply (expect_tells .colon).bind
  intro colon s found
  have annotated := found.2.left_lt
  exact typeExpr_tells.bind fun ty u typed => .pure (by omega)

theorem constructor_tells : Tells constructor? p fun _ q => q.left ≤ p.left := by
  apply (accept_tells .leftParen).bind
  intro opening q passed
  cases opening with
  | none => exact .pure (Nat.le_of_eq (congrArg _ passed.1))
  | some opening =>
    have opened := passed.2.left_lt
    apply (itemsUntil_tells (fun _ => ground_id.parameter) .rightParen (fun _ _ => parameter_tells) q
      (Nat.lt_succ_self _)).bind
    intro parameters r items
    refine (expect_tells .rightParen).bind fun closing s found => .pure ?_
    have closed := found.2.left_lt
    omega

theorem annotation_tells : Tells annotation? p fun ty q =>
    match ty with
    | some _ => q.left < p.left
    | none => q = p ∧ p.next ≠ some .colon := by
  apply (accept_tells .colon).bind
  intro colon q passed
  cases colon with
  | none => exact .pure passed
  | some colon =>
    exact typeExpr_tells.bind fun ty r typed => .pure (Nat.lt_trans typed passed.2.left_lt)

section Members

variable (made : ∀ t, .ok t ∈ answers → t.Made)

include made

theorem signedInteger_tells (negative : Bool) : Tells (signedInteger negative) p fun value q =>
    ∃ number n, number.kind = .integer ∧ number.value = some (.integer n) ∧
      value = (if negative then -n else n) ∧ p.Takes [number] q := by
  apply (expect_tells .integer).bind
  intro number q found
  obtain ⟨isNumber, takes⟩ := found
  obtain ⟨n, valued⟩ := (made number (takes.listed _ (List.mem_singleton_self _))).integer_value isNumber
  rw [valued]
  exact .pure ⟨number, n, isNumber, valued, rfl, takes⟩

-- Behind the name of an enumeration and its brace, and behind members with a comma each.
def AmongMembers (p : Position answers) (next : Option Int64) : Prop :=
  ∃ before keyword name opening members, p.before = before ++ keyword :: name :: opening :: members ∧
    keyword.kind = .enumKeyword ∧ name.kind = .identifier ∧ opening.kind = .leftBrace ∧
    CountsTo next members

theorem memberValue_tells {member : Token} {next : Option Int64} {q : Position answers}
    (among : AmongMembers p next) (named : member.kind = .identifier) (takes : p.Takes [member] q) :
    Tells (memberValue member next) q fun value r =>
      ∃ given us, SpellsValue given us ∧ given.or next = some value ∧ q.Takes us r := by
  unfold memberValue
  apply (accept_tells .assign).bind
  intro assign r passed
  cases assign with
  | none =>
    obtain ⟨rfl, other⟩ := passed
    cases next with
    | none =>
      obtain ⟨before, keyword, name, opening, members, same, enum, isName, opens, counts⟩ := among
      rw [Position.Takes, same] at takes
      have whole := r.whole
      rw [takes] at whole
      exact .refuse (.overflow whole enum isName opens counts named other)
    | some value => exact .pure ⟨none, [], .none, rfl, (List.append_nil _).symm⟩
  | some assign =>
    obtain ⟨assigns, takesAssign⟩ := passed
    apply (accept_tells .minus).bind
    intro minus s passed
    refine (signedInteger_tells made minus.isSome).imp fun value u found => ?_
    obtain ⟨number, n, isNumber, valued, rfl, takesNumber⟩ := found
    cases minus with
    | none =>
      obtain ⟨rfl, -⟩ := passed
      exact ⟨some n, _, .plain assigns isNumber valued, rfl, takesAssign.trans takesNumber⟩
    | some minus =>
      obtain ⟨isMinus, takesMinus⟩ := passed
      exact ⟨some (-n), _, .negative assigns isMinus isNumber valued, rfl,
        takesAssign.trans (takesMinus.trans takesNumber)⟩

theorem members_tells (enumName : String) (next : Option Int64) (p : Position answers)
    (among : AmongMembers p next) :
    Tells (enumMembers enumName next) p fun _ q => q.left ≤ p.left := by
  refine .step (fun _ => enumMembers_eq _ enumName next) ((accept_tells .identifier).bind ?_)
  intro member q passed
  cases member with
  | none => exact .pure (Nat.le_of_eq (congrArg _ passed.1))
  | some member =>
    obtain ⟨named, takes⟩ := passed
    have fewer := takes.left_lt
    apply (memberValue_tells made among named takes).bind
    intro value r found
    obtain ⟨given, us, spells, decided, takesValue⟩ := found
    have valued := takesValue.left_le
    apply (accept_tells .comma).bind
    intro comma s passed
    cases comma with
    | none =>
      obtain ⟨rfl, -⟩ := passed
      exact .pure (Nat.le_trans valued (Nat.le_of_lt fewer))
    | some comma =>
      obtain ⟨separates, takesComma⟩ := passed
      have separated := takesComma.left_lt
      have later : AmongMembers s (successor? value) := by
        obtain ⟨before, keyword, name, opening, members, same, enum, isName, opens, counts⟩ := among
        refine ⟨before, keyword, name, opening, members ++ member :: us ++ [comma], ?_, enum, isName, opens,
          counts.member named spells decided separates⟩
        have whole := (takes.trans takesValue).trans takesComma
        rw [Position.Takes, same] at whole
        simp [whole]
      refine (members_tells enumName (successor? value) s later).bind fun _ u more => .pure ?_
      omega
termination_by p.left

end Members

end Parts

-- The kinds of tokens that declarations in this place start with.
def leading : Place → List TokenKind
  | .scope => [.enumKeyword, .classKeyword, .varKeyword, .valKeyword]
  | .getter => [.varKeyword, .valKeyword, .returnKeyword]

variable {answers : List Answer}

-- A declaration takes a token at least.  There is none only where no token of these kinds comes next, and
-- then no token is taken.
def Declines (kinds : List TokenKind) (p : Position answers) : Option Node → Position answers → Prop
  | some _, q => q.left < p.left
  | none, q => q = p ∧ ∀ kind ∈ p.next, kind ∉ kinds

def NodesTold (answers : List Answer) (n : Nat) : Prop :=
  ∀ place (p : Position answers), p.left < n → Tells (declarations place) p fun _ q =>
    q.left ≤ p.left ∧ ∀ kind ∈ q.next, kind ∉ leading place

theorem Declines.single {kind : TokenKind} {p q : Position answers} (passed : q = p ∧ p.next ≠ some kind) :
    Declines [kind] p none q := by
  refine ⟨passed.1, fun other isNext within => passed.2 ?_⟩
  rw [← List.mem_singleton.1 within]
  exact isNext

theorem Declines.both {kinds others : List TokenKind} {p q : Position answers}
    (first : ∀ kind ∈ p.next, kind ∉ kinds) (then_ : Declines others p none q) :
    Declines (kinds ++ others) p none q :=
  ⟨then_.1, fun kind isNext within => (List.mem_append.1 within).elim (first kind isNext)
    (then_.2 kind isNext)⟩

section Rules

variable {n : Nat} (made : ∀ t, .ok t ∈ answers → t.Made) (nodes : NodesTold answers n)
  {p : Position answers}

include made

-- An expression and the semicolon behind it.
theorem statement_tells {α : Type} {f : Expr → α} {D : α → Position answers → Prop}
    (good : ∀ e q, q.left < p.left → D (f e) q) :
    Tells (do let e ← expr; let _ ← expect .semicolon; return f e) p D := by
  apply (expr_tells made p).bind
  intro e q value
  exact (expect_tells .semicolon).bind fun semicolon r found =>
    .pure (good e r (Nat.lt_trans found.2.left_lt value))

theorem enum_tells : Tells enum? p (Declines [.enumKeyword] p) := by
  apply (accept_tells .enumKeyword).bind
  intro keyword q passed
  cases keyword with
  | none => exact .pure (.single passed)
  | some keyword =>
    obtain ⟨enum, takesKeyword⟩ := passed
    apply identifier_takes.bind
    intro name r found
    obtain ⟨id, named, takesName⟩ := found
    apply (expect_tells .leftBrace).bind
    intro opening s found
    obtain ⟨opens, takesOpening⟩ := found
    have header := (takesKeyword.trans takesName).trans takesOpening
    have among : AmongMembers s (some 0) :=
      ⟨p.before, keyword, id, opening, [], header, enum, named, opens, .start⟩
    apply (members_tells made name (some 0) s among).bind
    intro members u inner
    refine (expect_tells .rightBrace).bind fun closing v found => .pure ?_
    have closed := found.2.left_lt
    have begun := header.left_le
    show v.left < p.left
    omega

theorem return_tells : Tells return? p (Declines [.returnKeyword] p) := by
  apply (accept_tells .returnKeyword).bind
  intro keyword q passed
  cases keyword with
  | none => exact .pure (.single passed)
  | some keyword =>
    exact statement_tells made fun _ r value => Nat.lt_trans value passed.2.left_lt

include nodes

omit made in
-- Declarations and the brace behind them.
theorem NodesTold.body {α : Type} {f : List Node → α} {D : α → Position answers → Prop} (place : Place)
    (short : p.left < n) (good : ∀ children q, q.left < p.left → D (f children) q) :
    Tells (do let children ← declarations place; let _ ← expect .rightBrace; return f children) p D := by
  apply (nodes place p short).bind
  intro children q inner
  exact (expect_tells .rightBrace).bind fun closing r found =>
    .pure (good children r (Nat.lt_of_lt_of_le found.2.left_lt inner.1))

omit made in
theorem NodesTold.class (short : p.left ≤ n) :
    Tells (class? (declarations .scope)) p (Declines [.classKeyword] p) := by
  apply (accept_tells .classKeyword).bind
  intro keyword q passed
  cases keyword with
  | none => exact .pure (.single passed)
  | some keyword =>
    have begun := passed.2.left_lt
    apply identifier_tells.bind
    intro name r named
    apply genericNames_tells.bind
    intro generics s generic
    apply constructor_tells.bind
    intro constructor u constructs
    apply (expectAny_tells [.leftBrace, .semicolon]).bind
    intro opening v found
    have opened := found.2.left_lt
    split
    · exact nodes.body .scope (by omega) fun children w inner => show w.left < p.left by omega
    · exact .pure (show v.left < p.left by omega)

theorem NodesTold.getterBody (short : p.left ≤ n) :
    Tells (getterBody (declarations .getter)) p (Advances p) := by
  apply (accept_tells .assign).bind
  intro assign q passed
  cases assign with
  | some assign => exact statement_tells made fun _ r value => Nat.lt_trans value passed.2.left_lt
  | none =>
    obtain ⟨rfl, -⟩ := passed
    apply (expect_tells .leftBrace).bind
    intro opening r found
    have opened := found.2.left_lt
    exact nodes.body .getter (by omega) fun children s inner => Nat.lt_trans inner opened

-- Behind the name of a variable and its type.
theorem NodesTold.bindingRest (short : p.left ≤ n) {id : Token} {ty : Option Expr}
    (untyped : ty = none → ∃ before keyword, p.before = before ++ [keyword, id] ∧
      keyword.kind ∈ [TokenKind.varKeyword, .valKeyword] ∧ id.kind = .identifier ∧
      p.next ≠ some .colon) :
    Tells (bindingRest id ty (declarations .getter)) p fun _ q => q.left ≤ p.left := by
  apply (accept_tells .assign).bind
  intro assign q passed
  cases assign with
  | some assign =>
    exact statement_tells made fun _ r value => Nat.le_of_lt (Nat.lt_trans value passed.2.left_lt)
  | none =>
    obtain ⟨rfl, noValue⟩ := passed
    apply (accept_tells .getKeyword).bind
    intro keyword r passed
    cases keyword with
    | some keyword =>
      have gets := passed.2.left_lt
      exact (nodes.getterBody made (by omega)).bind fun _ s body =>
        .pure (Nat.le_of_lt (Nat.lt_trans body gets))
    | none =>
      obtain ⟨rfl, noGetter⟩ := passed
      cases ty with
      | none =>
        obtain ⟨before, keyword, same, introduces, named, noType⟩ := untyped rfl
        have whole := r.whole
        rw [same] at whole
        refine .refuse (.untyped whole introduces named fun kind isNext => ?_)
        rw [Position.next, Option.mem_def.1 isNext] at noType noValue noGetter
        grind
      | some ty =>
        exact (expect_tells .semicolon).bind fun semicolon s found => .pure found.2.left_le

theorem NodesTold.binding (short : p.left ≤ n) :
    Tells (binding? (declarations .getter)) p (Declines [.varKeyword, .valKeyword] p) := by
  apply currentKind_tells.bind
  intro kind _ given
  obtain ⟨rfl, rfl⟩ := given
  split
  case isFalse other =>
    refine .pure ⟨rfl, fun kind isNext within => other ?_⟩
    rw [Option.mem_def.1 isNext]
    simpa using within
  case isTrue =>
    apply bindingKeyword_tells.bind
    intro modifiers q found
    obtain ⟨keyword, introduces, takesKeyword⟩ := found
    apply (expect_tells .identifier).bind
    intro id r found
    obtain ⟨named, takesName⟩ := found
    have header := takesKeyword.trans takesName
    have begun : r.left < _ := header.left_lt
    apply annotation_tells.bind
    intro ty s annotated
    have fewer : s.left ≤ r.left := by
      cases ty with
      | none => exact Nat.le_of_eq (congrArg _ annotated.1)
      | some ty => exact Nat.le_of_lt annotated
    refine (nodes.bindingRest made (by omega) ?_).bind fun _ u rest => .pure (show u.left < _ by omega)
    rintro rfl
    obtain ⟨rfl, noType⟩ := annotated
    exact ⟨_, keyword, header, introduces, named, noType⟩

theorem NodesTold.declaration (short : p.left ≤ n) (place : Place) :
    Tells (declaration? declarations place) p (Declines (leading place) p) := by
  cases place with
  | scope =>
    apply (enum_tells made).bind
    intro enum q found
    cases enum with
    | some node => exact .pure found
    | none =>
      obtain ⟨rfl, noEnum⟩ := found
      apply (nodes.class short).bind
      intro class_ r found
      cases class_ with
      | some node => exact .pure found
      | none =>
        obtain ⟨rfl, noClass⟩ := found
        refine (nodes.binding made short).imp fun binding s found => ?_
        cases binding with
        | some node => exact found
        | none => exact .both noEnum (.both noClass found)
  | getter =>
    apply (nodes.binding made short).bind
    intro binding q found
    cases binding with
    | some node => exact .pure found
    | none =>
      obtain ⟨rfl, noBinding⟩ := found
      refine (return_tells made).imp fun ret r found => ?_
      cases ret with
      | some node => exact found
      | none => exact .both noBinding found

end Rules

theorem nodes_told (made : ∀ t, .ok t ∈ answers → t.Made) (n : Nat) : NodesTold answers n := by
  induction n with
  | zero => exact fun _ _ short => absurd short (Nat.not_lt_zero _)
  | succ n nodes =>
    intro place p short
    refine .step (fun _ => declarations_eq _ place) ((nodes.declaration made (Nat.le_of_lt_succ short) place).bind ?_)
    intro found q taken
    cases found with
    | none =>
      obtain ⟨rfl, declined⟩ := taken
      exact .pure ⟨Nat.le_refl _, declined⟩
    | some node =>
      have fewer : q.left < p.left := taken
      exact (nodes place q (by omega)).bind fun _ r more => .pure ⟨by omega, more.2⟩

theorem program_tells (made : ∀ t, .ok t ∈ answers → t.Made) (p : Position answers) :
    Tells program p fun _ _ => True := by
  apply (nodes_told made _ .scope p (Nat.lt_succ_self _)).bind
  intro children q found
  exact (expectEnd_tells found.2).bind fun _ _ _ => .pure trivial

end Grammar

open Grammar

section Failing

variable {source : String}

-- Where no program is read, the run along the listing fails alike.
theorem readProgram_fails {answers : List Answer} {e : ReadError}
    (listed : Listed [] (TokenStream.ofSource source) answers) (failed : readProgram source = .error e) :
    let eof := Span.empty source.utf8ByteSize
    ∃ o s, program eof (Observed.ofSource source) = .error e o ∧
      program eof (TokenStream.ofSource source) = .error e o.stream ∧
      program (σ := Feed) eof ⟨answers, none⟩ = .error e s ∧ (e.isLexical = false → Kept answers o s) := by
  intro eof
  rw [readProgram, readProgramFrom, runOn, ← program_observed source] at failed
  rw [← program_observed source]
  have agree : Agree (evenFaults eof answers) _ (program eof _) (program eof _) :=
    even_ground.program _ _ (even_start listed)
  rcases agree.split with ⟨_, _, o, s, ran, -⟩ | ⟨e', _, o, s, ran, ran', rfl, -, -, kept⟩ | ⟨_, _, -, bad⟩
  · rw [ran] at failed
    cases failed
  · rw [ran] at failed ⊢
    cases failed
    exact ⟨o, s, rfl, rfl, ran', kept⟩
  · exact bad.elim

-- Syntax errors are located at tokens of the source.
--
-- What is reported is one of the tokens that are listed, with its span and its kind, and a token of that
-- kind cannot stand there; or it is the name of a variable or of a member.  Only where all the tokens of
-- the source are listed, and all of them were taken, is the error at the end of the input.
theorem syntaxErrors_located {e : Located SyntaxError}
    (failed : readProgram source = .error (.grammatical e)) :
    (∃ answers, Listed [] (TokenStream.ofSource source) answers ∧ Refuses answers e) ∨
      e = ⟨Span.empty source.utf8ByteSize, .unexpectedEnd⟩ ∧
        ∃ o, program (.empty source.utf8ByteSize) (Observed.ofSource source) = .error (.grammatical e) o ∧
          program (.empty source.utf8ByteSize) (TokenStream.ofSource source) =
            .error (.grammatical e) o.stream ∧
          tokensOf source = .ok o.taken := by
  obtain ⟨answers, lists⟩ := exists_lists source
  have listed := lists.listed
  obtain ⟨o, s, ran, shown, ran', kept⟩ := readProgram_fails listed failed
  have told := program_tells (lists.made nofun) ⟨[], answers, rfl⟩ (.empty source.utf8ByteSize)
  rw [Position.feed, ran'] at told
  cases told with
  | failed explains =>
    cases explains with
    | ended empty =>
      have whole := (kept rfl).whole
      rw [empty, List.append_nil] at whole
      exact .inr ⟨rfl, o, ran, shown, tokensOf_ok.2 (whole ▸ lists)⟩
    | refused refuses => exact .inl ⟨answers, listed, refuses⟩

end Failing

-- Behind a member with the greatest value, the next one is refused; behind a keyword, the end of the input.
theorem overflow_and_end_located :
    (∃ answers, Listed [] (TokenStream.ofSource "enum A \x7b B = 9223372036854775807, C \x7d") answers ∧
      Refuses answers ⟨Span.ofBounds 34 35, .enumValueOverflow⟩) ∧
    ∃ o, program (.empty 5) (Observed.ofSource "class") = .error (.grammatical ⟨Span.empty 5, .unexpectedEnd⟩) o ∧
      program (.empty 5) (TokenStream.ofSource "class") =
        .error (.grammatical ⟨Span.empty 5, .unexpectedEnd⟩) o.stream ∧
      tokensOf "class" = .ok o.taken := by
  have fails {source : String} {e : ReadError}
      (refused : (match readProgram source with | .ok _ => none | .error e => some e) = some e) :
      readProgram source = .error e := by
    split at refused <;> cases refused
    assumption
  constructor
  · have overflows : readProgram "enum A \x7b B = 9223372036854775807, C \x7d" =
        .error (.grammatical ⟨Span.ofBounds 34 35, .enumValueOverflow⟩) := fails (by decide +kernel)
    rcases syntaxErrors_located overflows with found | ⟨same, -⟩
    · exact found
    · cases same
  · have ended : readProgram "class" = .error (.grammatical ⟨Span.empty 5, .unexpectedEnd⟩) :=
      fails (by decide +kernel)
    rcases syntaxErrors_located ended with ⟨_, _, refuses⟩ | ⟨-, found⟩
    · exact absurd rfl refuses.inside
    · exact found

end Frontend
