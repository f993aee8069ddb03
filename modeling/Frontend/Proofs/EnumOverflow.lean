import Frontend.Proofs.Concatenation
import Frontend.Proofs.EnumMembers

-- Enums without a value for one of their members.  Wherever a declaration is looked for, an enum is read, or
-- it is refused at the first member that would come behind the greatest value.

namespace Frontend.Grammar

open Surface TokenSource Feed Scanner

variable {α β : Type} {r r' : Rule Feed α} {k : α → Rule Feed β} {s s' : Feed} {e : ReadError} {eof : Span}
  {behind : List Answer} {ts us rest front text : List Token}

-- The rule fails like this, wherever the input ends.
def Fails (r : Rule Feed α) (s : Feed) (e : ReadError) : Prop := ∀ eof, ∃ s', r eof s = .error e s'

namespace Fails

theorem here {span : Span} {error : SyntaxError} :
    Fails (failAt span error : Rule Feed α) s (.grammatical ⟨span, error⟩) :=
  fun _ => ⟨s, rfl⟩

theorem bind (fails : Fails r s e) : Fails (r >>= k) s e := by
  intro eof
  obtain ⟨s', failed⟩ := fails eof
  exact ⟨s', by simp only [Bind.bind, ReaderT.bind, EStateM.bind, failed]⟩

theorem after {a : α} (ran : ∀ eof, r eof s = .ok a s') (fails : Fails (k a) s' e) : Fails (r >>= k) s e := by
  intro eof
  obtain ⟨s'', failed⟩ := fails eof
  exact ⟨s'', (bind_ok (ran eof)).trans failed⟩

theorem step (same : ∀ eof, r eof s = r' eof s) (fails : Fails r' s e) : Fails r s e := by
  intro eof
  obtain ⟨s', failed⟩ := fails eof
  exact ⟨s', (same eof).trans failed⟩

end Fails

theorem feedBefore_append (ts us : List Token) (behind : List Answer) :
    feedBefore (ts ++ us) behind = feedBefore ts (us.map .ok ++ behind) := by
  rw [feedBefore, feedBefore, List.map_append, List.append_assoc]

theorem Local.before {a : α} (given : Local behind False never r r')
    (read : r eof (feedOf (us ++ rest)) = .ok a (feedOf rest)) (settles : Settles rest) :
    r' eof (feedBefore (us ++ rest) behind) = .ok a (feedBefore rest behind) := by
  obtain ⟨_, others, -, left, -, alike⟩ := given eof eof _ _ _ read
  obtain rfl : rest = others := ok_injective (congrArg Feed.ahead left)
  exact alike (.inr settles)

theorem WritesMembers.stuck {members : List Member} {next : Option Int64} {j : Nat} {closing : Token}
    (writes : WritesMembers members ts) (enumName : String) (spelled : ∀ t ∈ ts, t.Spelled)
    (closes : closing.kind = .rightBrace) (stuck : Stuck next (givenValues members) j) (behind : List Answer) :
    ∃ member, members[j]? = some member ∧ Fails (enumMembers enumName next)
      (feedBefore (ts ++ [closing]) behind) (.grammatical ⟨member.id.span, .enumValueOverflow⟩) := by
  have last : Settles [closing] := .head (by rw [closes]; decide) []
  -- Nothing is written for the first member, and the token behind it is no `=`.
  have valueless {id t : Token} {others : List Token} (named : id.kind = .identifier) (other : t.kind ≠ .assign) :
      Fails (enumMembers enumName Option.none) (feedBefore (id :: t :: others) behind)
        (.grammatical ⟨id.span, .enumValueOverflow⟩) := by
    refine .step (fun _ => enumMembers_eq _ enumName Option.none) (.after (fun _ => accept_found named) (.bind ?_))
    exact .after (fun _ => accept_other other) .here
  induction writes generalizing next j with
  | none => cases stuck
  | @last id given ts named writes =>
    obtain ⟨value, spells, rfl⟩ := writes.spelled fun t within => spelled t (List.mem_cons_of_mem _ within)
    rcases Stuck.uncons stuck with ⟨rfl, rfl, rfl⟩ | ⟨v, i, rfl, -, later⟩
    · cases spells
      exact ⟨_, rfl, valueless named (by rw [closes]; decide)⟩
    · exact absurd later Stuck.not_nil
  | @more id comma given members ts us named writes separates _ ih =>
    obtain ⟨value, spells, rfl⟩ := writes.spelled fun t within => spelled t (by simp [within])
    simp only [List.cons_append, List.append_assoc]
    rcases Stuck.uncons stuck with ⟨rfl, rfl, rfl⟩ | ⟨v, i, rfl, decided, later⟩
    · cases spells
      exact ⟨_, rfl, valueless named (by rw [separates]; decide)⟩
    · obtain ⟨member, there, fails⟩ := ih (fun t within => spelled t (by simp [within])) later
      have other : Next (· ≠ .assign) (comma :: (us ++ [closing])) := .cons (by rw [separates]; decide)
      have settles : Settles (comma :: (us ++ [closing])) := last.right (comma :: us)
      refine ⟨member, there, .step (fun _ => enumMembers_eq _ enumName next) (.after (fun _ => accept_found named) ?_)⟩
      refine .after (fun _ => (memberValue_local id next).before (spells.read decided other) settles) ?_
      exact .after (fun _ => accept_found separates) fails.bind

theorem WritesEnum.declares {name : String} {members : List Member} {values : List Int64}
    (writes : WritesEnum name members text) (spelled : ∀ t ∈ text, t.Spelled)
    (counts : Counts (some 0) (givenValues members) values) :
    Declares .required (.node .scope (.enumeration name (memberNodes name members values))) text [] := by
  cases writes with
  | enum enum named opens writes closes =>
    exact .enumeration enum named opens (writes.counted _ (fun t within => spelled t (by simp [within])) counts) closes

theorem WritesEnum.stuck {name : String} {members : List Member} {j : Nat} (writes : WritesEnum name members text)
    (spelled : ∀ t ∈ text, t.Spelled) (stuck : Stuck (some 0) (givenValues members) j) (behind : List Answer) :
    ∃ member, members[j]? = some member ∧ Fails (declaration? declarations .scope)
      (feedBefore text behind) (.grammatical ⟨member.id.span, .enumValueOverflow⟩) := by
  cases writes with
  | @enum keyword id opening closing members ts enum named opens writes closes =>
    obtain ⟨member, there, fails⟩ :=
      writes.stuck id.text (fun t within => spelled t (by simp [within])) closes stuck behind
    refine ⟨member, there, .bind (.after (fun _ => accept_found enum) ?_)⟩
    exact .after (fun _ => identifier_found named) (.after (fun _ => expect_found opens) fails.bind)

-- Behind these tokens of a program a declaration is looked for: behind declarations, each of them complete, and
-- behind the opening brace of a class.
inductive Leads : List Token → Prop where
  | start : Leads []
  | behind {front ts : List Token} {node : Node} : Leads front → Declares .required (.node .scope node) ts [] →
      Leads (front ++ ts)
  | inside {front ts us : List Token} {keyword id opening : Token} {generics : Option (List String)}
      {constructor : List Node} : Leads front → keyword.kind = .classKeyword → id.kind = .identifier →
      SpellsGenerics generics ts → SpellsConstructor constructor us → opening.kind = .leftBrace →
      Leads (front ++ (keyword :: id :: ts ++ us ++ [opening]))

theorem class_fails {keyword id opening : Token} {generics : Option (List String)} {constructor : List Node}
    {body : Rule Feed (List Node)} (introduces : keyword.kind = .classKeyword) (named : id.kind = .identifier)
    (generic : SpellsGenerics generics ts) (constructs : SpellsConstructor constructor us)
    (opens : opening.kind = .leftBrace) (fails : Fails body (feedBefore [] behind) e) :
    Fails (class? body) (feedBefore (keyword :: id :: ts ++ us ++ [opening]) behind) e := by
  have noLess : Next (· ≠ .less) (us ++ [opening]) := constructs.start (by rw [opens]; decide)
  have noParen : Next (· ≠ .leftParen) [opening] := .cons (by rw [opens]; decide)
  have last : Settles [opening] := .head (by rw [opens]; decide) []
  have found : opening.kind ∈ [TokenKind.leftBrace, .semicolon] := by rw [opens]; decide
  have opened {eof : Span} : expectAny [.leftBrace, .semicolon] eof (feedBefore [opening] behind) =
      .ok opening (feedBefore [] behind) := by
    have first : current eof (feedBefore [opening] behind) = .ok (some opening) (feedBefore [opening] behind) := rfl
    simp only [expectAny, bind_ok first, found, if_true]
    rfl
  simp only [List.cons_append, List.append_assoc]
  refine .after (fun _ => accept_found introduces) (.after (fun _ => identifier_found named) ?_)
  refine .after (fun _ => genericNames_local.before (generic.read noLess) (last.right us)) ?_
  refine .after (fun _ => constructor_local.before (constructs.read noParen) last) (.after (fun _ => opened) ?_)
  rw [if_pos opens]
  exact fails.bind

theorem Leads.fails (leads : Leads front) (fails : Fails (declarations .scope) (feedBefore [] behind) e) :
    Fails (declarations .scope) (feedBefore front behind) e := by
  induction leads generalizing behind with
  | start => exact fails
  | behind _ declares ih =>
    rw [feedBefore_append]
    exact ih (.step (fun _ => declarations_eq _ .scope) (.after (fun _ => declares.read_before behind) fails.bind))
  | @inside front ts us keyword id opening _ _ _ introduces named generic constructs opens ih =>
    rw [feedBefore_append]
    have noEnum : keyword.kind ≠ .enumKeyword := by rw [introduces]; decide
    have declined {eof : Span} : enum? eof (feedBefore (keyword :: id :: ts ++ us ++ [opening]) behind) =
        .ok none (feedBefore (keyword :: id :: ts ++ us ++ [opening]) behind) := bind_ok (accept_other noEnum)
    refine ih (.step (fun _ => declarations_eq _ .scope) (.bind (.after (fun _ => declined) (.bind ?_))))
    exact class_fails introduces named generic constructs opens fails

-- What a declaration is refused for is what the program is refused for.
theorem Leads.refused {source : String} (leads : Leads front)
    (lists : Lists (ofSource source) ((front ++ text).map .ok ++ behind))
    (fails : Fails (declaration? declarations .scope) (feedBefore text behind) e) :
    readProgram source = .error e := by
  have first : Fails (declarations .scope) (feedBefore text behind) e :=
    .step (fun _ => declarations_eq _ .scope) fails.bind
  have whole : Fails program (feedBefore (front ++ text) behind) e := by
    rw [feedBefore_append]
    exact .bind (leads.fails first)
  obtain ⟨s, failed⟩ := whole (.empty source.utf8ByteSize)
  rw [readProgram_lists lists, runOn]
  simp only [feedBefore] at failed
  rw [failed]

-- What becomes of an enum of the source that is written as `text`, where `values` are those of the rule.
structure Decided (source : String) (front text : List Token) (behind : List Answer) (name : String)
    (members : List Member) (values : List Int) : Prop where
  numbered : Numbered 0 (givenValues members) values
  -- It is read, whatever stands behind it,
  read : (∀ i, ¬ Overflows (givenValues members) values i) → Leads (front ++ text) ∧
    ∃ counted, values = counted.map Int64.toInt ∧
      ∀ eof, declaration? declarations .scope eof (feedBefore text behind) =
        .ok (some (.enumeration name (memberNodes name members counted))) (feedBefore [] behind)
  -- or the source is refused at the first member without a value behind the greatest one.
  refused : ∀ i, Overflows (givenValues members) values i →
    (∀ k < i, ¬ Overflows (givenValues members) values k) → ∃ member, members[i + 1]? = some member ∧
      readProgram source = .error (.grammatical ⟨member.id.span, .enumValueOverflow⟩)

theorem enum_decided {source name : String} {members : List Member}
    (lists : Lists (ofSource source) ((front ++ text).map .ok ++ behind)) (leads : Leads front)
    (writes : WritesEnum name members text) : ∃ values, Decided source front text behind name members values := by
  have spelled : ∀ t ∈ text, t.Spelled := fun t within =>
    (lists.made (List.forall_mem_nil _) t (by simp [within])).spelled
  rcases counts_or_stuck (writes.fits spelled) (some 0) with ⟨counted, counts⟩ | ⟨j, stuck⟩
  · have declares := writes.declares spelled counts
    exact ⟨counted.map Int64.toInt, counts.numbered zero_standsAt,
      fun _ => ⟨.behind leads declares, counted, rfl, fun _ => declares.read_before behind⟩,
      fun i overflows => absurd overflows (counts.no_overflow zero_standsAt i)⟩
  · obtain ⟨values, numbered⟩ := exists_numbered 0 (givenValues members)
    obtain ⟨i, rfl, overflows, first⟩ := stuck.overflows numbered
    refine ⟨values, numbered, fun fine => absurd overflows (fine i), fun k overflows' first' => ?_⟩
    obtain rfl : k = i := Nat.le_antisymm (Nat.not_lt.1 fun less => first' i less overflows)
      (Nat.not_lt.1 fun less => first k less overflows')
    obtain ⟨member, there, fails⟩ := writes.stuck spelled stuck behind
    exact ⟨member, there, leads.refused lists fails⟩

end Frontend.Grammar
