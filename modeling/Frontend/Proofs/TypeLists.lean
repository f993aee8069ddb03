import Frontend.Proofs.Feed

-- Type arguments: which tokens spell a closed list of types, and that such a list is taken exactly where
-- one stands.

namespace Frontend.Grammar

open Surface TokenSource

inductive TypePhrase where
  | type (e : Expr)
  -- One type or more, with commas between them.
  | types (es : List Expr)
  -- The same between `<` and `>`.
  | closed (es : List Expr)

-- The tokens spell the phrase, from the first to the last.
inductive Spells : TypePhrase → List Token → Prop where
  | name {id : Token} : id.kind = .identifier → Spells (.type (.ident id.text none)) [id]
  | applied {id : Token} {args : List Expr} {ts : List Token} : id.kind = .identifier →
      Spells (.closed args) ts → Spells (.type (.ident id.text (some args))) (id :: ts)
  | one {e : Expr} {ts : List Token} : Spells (.type e) ts → Spells (.types [e]) ts
  | more {e : Expr} {es : List Expr} {comma : Token} {ts us : List Token} : Spells (.type e) ts →
      comma.kind = .comma → Spells (.types es) us → Spells (.types (e :: es)) (ts ++ comma :: us)
  | closed {es : List Expr} {opening closing : Token} {ts : List Token} : opening.kind = .less →
      Spells (.types es) ts → closing.kind = .greater →
      Spells (.closed es) (opening :: ts ++ [closing])

def typeList {σ : Type} [TokenSource σ] : Rule σ (List Expr) := do
  let first ← typeExpr
  let others ← afterCommas typeExpr
  return first :: others

-- The next token is there, and it does not open another list.
def Closing (rest : List Answer) : Prop := ∃ t others, rest = .ok t :: others ∧ t.kind ≠ .less

-- In an attempt, the rule for the phrase takes just these tokens.
def Reads : TypePhrase → List Token → Prop
  | .type e, ts => ∀ eof rest j, Closing rest →
      typeExpr (σ := Feed) eof ⟨ts.map .ok ++ rest, some j⟩ = .ok e ⟨rest, some (ts.reverse ++ j)⟩
  | .types es, ts => ∀ eof t rest j, t.kind = .greater →
      typeList (σ := Feed) eof ⟨ts.map .ok ++ .ok t :: rest, some j⟩ =
        .ok es ⟨.ok t :: rest, some (ts.reverse ++ j)⟩
  | .closed es, ts => ∀ eof rest j,
      closedGenerics typeExpr (σ := Feed) eof ⟨ts.map .ok ++ rest, some j⟩ =
        .ok es ⟨rest, some (ts.reverse ++ j)⟩

open Feed

theorem attempt_held {α : Type} (r : Rule Feed α) (eof : Span) (ahead : List Answer) (j : List Token) :
    attempt r eof ⟨ahead, some j⟩ = (some <$> r) eof ⟨ahead, some j⟩ := rfl

theorem reads_name {id : Token} (named : id.kind = .identifier) :
    Reads (.type (.ident id.text none)) [id] := by
  intro eof _ j found
  obtain ⟨t, rest, rfl, other⟩ := found
  have nothing : genericsAfterName typeExpr (σ := Feed) eof ⟨.ok t :: rest, some (id :: j)⟩ =
      .ok none ⟨.ok t :: rest, some (id :: j)⟩ := by
    simp only [genericsAfterName, bind_ok (isNext_other other)]
    rfl
  rw [typeExpr_eq _ (held_some _ _)]
  simp only [typeStep, List.map_cons, List.map_nil, List.cons_append, List.nil_append]
  rw [bind_ok (identifier_found named), Option.map_some, bind_ok nothing]
  rfl

theorem opens_closed {args : List Expr} {ts : List Token} (list : Spells (.closed args) ts) :
    ∃ t others, ts = t :: others ∧ t.kind = .less := by
  cases list with
  | closed opens _ _ => exact ⟨_, _, rfl, opens⟩

theorem generics_eq_attempt {σ : Type} [TokenSource σ] {type : Rule σ Expr} {eof : Span} {s s' : σ}
    (next : isNext .less eof s = .ok true s') :
    genericsAfterName type eof s = attempt (closedGenerics type) eof s' := by
  simp only [genericsAfterName, Bind.bind, ReaderT.bind, EStateM.bind, next, if_true]

theorem reads_applied {id : Token} {args : List Expr} {ts : List Token}
    (named : id.kind = .identifier) (list : Spells (.closed args) ts) (read : Reads (.closed args) ts) :
    Reads (.type (.ident id.text (some args))) (id :: ts) := by
  intro eof rest j _
  have taken : genericsAfterName typeExpr (σ := Feed) eof ⟨ts.map .ok ++ rest, some (id :: j)⟩ =
      .ok (some args) ⟨rest, some (ts.reverse ++ id :: j)⟩ := by
    obtain ⟨t, others, rfl, opens⟩ := opens_closed list
    exact (generics_eq_attempt (isNext_found opens)).trans (map_ok (read eof rest (id :: j)))
  rw [typeExpr_eq _ (held_some _ _)]
  simp only [typeStep, List.map_cons, List.cons_append]
  rw [bind_ok (identifier_found named), Option.map_some, bind_ok taken]
  simp only [List.reverse_cons, List.append_assoc]
  rfl

theorem reads_one {e : Expr} {ts : List Token} (first : Reads (.type e) ts) :
    Reads (.types [e]) ts := by
  intro eof t rest j closes
  have ended : afterCommas typeExpr (σ := Feed) eof ⟨.ok t :: rest, some (ts.reverse ++ j)⟩ =
      .ok [] ⟨.ok t :: rest, some (ts.reverse ++ j)⟩ := by
    rw [afterTypes_eq _ (held_some _ _), commaStep, bind_ok (accept_other (by rw [closes]; decide))]
    rfl
  rw [typeList, bind_ok (first _ _ _ ⟨t, rest, rfl, by rw [closes]; decide⟩), bind_ok ended]
  rfl

theorem reads_more {e : Expr} {es : List Expr} {comma : Token} {ts us : List Token}
    (first : Reads (.type e) ts) (separates : comma.kind = .comma) (others : Reads (.types es) us) :
    Reads (.types (e :: es)) (ts ++ comma :: us) := by
  intro eof t rest j closes
  have goesOn : afterCommas typeExpr (σ := Feed) eof
      ⟨.ok comma :: (us.map .ok ++ .ok t :: rest), some (ts.reverse ++ j)⟩ =
        .ok es ⟨.ok t :: rest, some (us.reverse ++ comma :: (ts.reverse ++ j))⟩ := by
    rw [afterTypes_eq _ (held_some _ _), commaStep, bind_ok (accept_found separates)]
    exact others _ t rest _ closes
  have behind : Closing (.ok comma :: (us.map .ok ++ .ok t :: rest)) :=
    ⟨comma, _, rfl, by rw [separates]; decide⟩
  simp only [List.map_append, List.map_cons, List.append_assoc, List.cons_append, List.reverse_append,
    List.reverse_cons]
  rw [typeList, bind_ok (first _ _ _ behind), bind_ok goesOn]
  rfl

theorem closedGenerics_eq {σ : Type} [TokenSource σ] : closedGenerics (σ := σ) typeExpr = do
    let _ ← expect .less
    let types ← typeList
    let _ ← expect .greater
    return types := by
  simp only [closedGenerics, typeList, bind_assoc, pure_bind]

theorem reads_closed {es : List Expr} {opening closing : Token} {ts : List Token}
    (opens : opening.kind = .less) (inner : Reads (.types es) ts) (closes : closing.kind = .greater) :
    Reads (.closed es) (opening :: ts ++ [closing]) := by
  intro eof rest j
  simp only [List.map_append, List.map_cons, List.map_nil, List.append_assoc, List.cons_append,
    List.nil_append, List.reverse_append, List.reverse_cons, List.reverse_nil]
  rw [closedGenerics_eq, bind_ok (expect_found opens), Option.map_some,
    bind_ok (inner _ closing rest _ closes), bind_ok (expect_found closes)]
  rfl

theorem Spells.reads {phrase : TypePhrase} {ts : List Token} (spells : Spells phrase ts) :
    Reads phrase ts := by
  induction spells with
  | name named => exact reads_name named
  | applied named list read => exact reads_applied named list read
  | one _ read => exact reads_one read
  | more _ separates _ first others => exact reads_more first separates others
  | closed opens _ closes read => exact reads_closed opens read closes

structure Passes (ts : List Token) (s s' : Feed) : Prop where
  ahead : s.ahead = ts.map .ok ++ s'.ahead
  journal : s'.journal = s.journal.map (ts.reverse ++ ·)

theorem Passes.nil (s : Feed) : Passes [] s s := by
  obtain ⟨_, _ | _⟩ := s <;> exact ⟨rfl, rfl⟩

theorem Passes.append {ts us : List Token} {s s' s'' : Feed} (first : Passes ts s s')
    (later : Passes us s' s'') : Passes (ts ++ us) s s'' := by
  refine ⟨?_, ?_⟩
  · rw [first.ahead, later.ahead, List.map_append, List.append_assoc]
  · rw [later.journal, first.journal, Option.map_map]
    congr 1
    funext j
    simp only [Function.comp_apply, List.reverse_append, List.append_assoc]

theorem Passes.held {ts : List Token} {s s' : Feed} (passes : Passes ts s s') (held : Held s) :
    Held s' := by
  obtain ⟨j, same⟩ := held_iff.1 held
  exact held_iff.2 ⟨ts.reverse ++ j, by rw [passes.journal, same]; rfl⟩

theorem Passes.length {ts : List Token} {s s' : Feed} (passes : Passes ts s s') :
    s.ahead.length = ts.length + s'.ahead.length := by
  rw [passes.ahead, List.length_append, List.length_map]

-- What a rule did to `s` where `Q` says what it reads: it took tokens it reads, or met an error
-- where such tokens could have gone on, or gave up behind some tokens.
def Traces {α : Type} (Q : α → List Token → Prop) (s : Feed) : EStateM.Result ReadError Feed α → Prop
  | .ok a s' => ∃ ts, Passes ts s s' ∧ Q a ts
  | .error (.lexical e) s' => ∃ ts more a, Q a (ts ++ more) ∧ more ≠ [] ∧
      Passes ts s ⟨.error e :: s'.ahead, s'.journal⟩
  | .error _ s' => ∃ ts, Passes ts s s'

variable {α β : Type} {eof : Span} {s s' : Feed}

theorem Traces.after {R : β → List Token → Prop} {ts : List Token}
    {x : EStateM.Result ReadError Feed β} (passes : Passes ts s s')
    (traces : Traces (fun b us => R b (ts ++ us)) s' x) : Traces R s x := by
  rcases x with ⟨b, s''⟩ | ⟨_ | _, s''⟩
  · obtain ⟨us, later, reads⟩ := traces
    exact ⟨ts ++ us, passes.append later, reads⟩
  · obtain ⟨us, more, b, reads, owes, later⟩ := traces
    exact ⟨ts ++ us, more, b, List.append_assoc .. ▸ reads, owes, passes.append later⟩
  · obtain ⟨us, later⟩ := traces
    exact ⟨ts ++ us, passes.append later⟩

theorem Traces.bind {Q : α → List Token → Prop} {R : β → List Token → Prop} {r : Rule Feed α}
    {k : α → Rule Feed β} (begins : Traces Q s (r eof s))
    (goesOn : ∀ a ts s', Passes ts s s' → Q a ts → Traces (fun b us => R b (ts ++ us)) s' (k a eof s'))
    (canGoOn : ∀ a ts, Q a ts → ∃ b us, R b (ts ++ us)) : Traces R s ((r >>= k) eof s) := by
  simp only [Bind.bind, ReaderT.bind, EStateM.bind]
  generalize r eof s = x at begins
  rcases x with ⟨a, s'⟩ | ⟨_ | _, s'⟩
  · obtain ⟨ts, passes, reads⟩ := begins
    exact (goesOn a ts s' passes reads).after passes
  · obtain ⟨ts, more, a, reads, owes, passes⟩ := begins
    obtain ⟨b, us, whole⟩ := canGoOn a _ reads
    refine ⟨ts, more ++ us, b, List.append_assoc .. ▸ whole, ?_, passes⟩
    exact fun none => owes (List.append_eq_nil_iff.1 none).1
  · exact begins

theorem Traces.pure {R : α → List Token → Prop} {a : α} (reads : R a []) :
    Traces R s ((pure a : Rule Feed α) eof s) :=
  ⟨[], Passes.nil s, reads⟩

-- A token that could stand where an error does.
def wanted (kind : TokenKind) : Token := .ofChars kind none 0 []

theorem spells_wanted : Spells (.type (.ident (wanted .identifier).text none)) [wanted .identifier] :=
  .name rfl

theorem spells_wanted_list : Spells (.closed [.ident (wanted .identifier).text none])
    [wanted .less, wanted .identifier, wanted .greater] :=
  Spells.closed rfl (.one spells_wanted) rfl

theorem expect_traces (kind : TokenKind) (s : Feed) :
    Traces (fun t ts => ts = [t] ∧ t.kind = kind) s (expect kind eof s) := by
  obtain ⟨_ | ⟨e | t, rest⟩, journal⟩ := s
  · exact ⟨[], Passes.nil _⟩
  · exact ⟨[], [wanted kind], wanted kind, ⟨rfl, rfl⟩, List.cons_ne_nil _ _, Passes.nil _⟩
  · by_cases found : t.kind = kind
    · rw [expect_found found]
      exact ⟨[t], ⟨rfl, rfl⟩, rfl, found⟩
    · simp only [expect, bind_ok current_ok, found, if_false]
      exact ⟨[], Passes.nil _⟩

theorem accept_traces (kind : TokenKind) (s : Feed) :
    Traces (fun a ts => ts = a.toList ∧ ∀ t, a = some t → t.kind = kind) s (accept? kind eof s) := by
  obtain ⟨_ | ⟨e | t, rest⟩, journal⟩ := s
  · exact ⟨[], Passes.nil _, rfl, nofun⟩
  · refine ⟨[], [wanted kind], some (wanted kind), ⟨rfl, ?_⟩, List.cons_ne_nil _ _, Passes.nil _⟩
    intro _ same
    cases same
    rfl
  · by_cases found : t.kind = kind
    · rw [accept_found found]
      refine ⟨[t], ⟨rfl, rfl⟩, rfl, ?_⟩
      intro _ same
      cases same
      exact found
    · rw [accept_other found]
      exact ⟨[], Passes.nil _, rfl, nofun⟩

def Others (es : List Expr) (ts : List Token) : Prop :=
  es = [] ∧ ts = [] ∨ ∃ comma us, comma.kind = .comma ∧ ts = comma :: us ∧ Spells (.types es) us

theorem Spells.types {e : Expr} {es : List Expr} {ts us : List Token} (first : Spells (.type e) ts)
    (others : Others es us) : Spells (.types (e :: es)) (ts ++ us) := by
  rcases others with ⟨rfl, rfl⟩ | ⟨comma, us, separates, rfl, spells⟩
  · rw [List.append_nil]
    exact .one first
  · exact .more first separates spells

-- Types are read as they are spelled, while fewer than `n` answers are to come.
def TypesTrace (n : Nat) : Prop :=
  ∀ (eof : Span) (s : Feed), Held s → s.ahead.length < n →
    Traces (fun e => Spells (.type e)) s (typeExpr eof s)

theorem TypesTrace.others {n : Nat} (types : TypesTrace n) (s : Feed) (held : Held s)
    (near : s.ahead.length < n) : Traces Others s (afterCommas typeExpr eof s) := by
  induction size : s.ahead.length using Nat.strongRecOn generalizing s with
  | ind size ih =>
    rw [afterTypes_eq s held]
    refine (accept_traces .comma s).bind ?_ ?_
    · rintro (_ | comma) _ u passes ⟨rfl, separates⟩
      · exact Traces.pure (.inl ⟨rfl, rfl⟩)
      · have shorter := passes.length
        simp only [Option.toList_some, List.length_cons, List.length_nil] at shorter
        refine (types _ u (passes.held held) (by omega)).bind ?_ ?_
        · intro e ts v passes' first
          have shorter' := passes'.length
          refine (ih _ (by omega) v (passes'.held (passes.held held)) (by omega) rfl).bind ?_ ?_
          · intro es us w _ others
            refine Traces.pure (.inr ⟨comma, _, separates _ rfl, ?_, first.types others⟩)
            simp
          · intro es us others
            exact ⟨e :: es, [], .inr ⟨comma, _, separates _ rfl, by simp, first.types others⟩⟩
        · intro e ts first
          exact ⟨[e], [], .inr ⟨comma, _, separates _ rfl, by simp, .one first⟩⟩
    · rintro (_ | comma) _ ⟨rfl, separates⟩
      · exact ⟨[], [], .inl ⟨rfl, rfl⟩⟩
      · exact ⟨_, _, .inr ⟨comma, _, separates _ rfl, rfl, .one spells_wanted⟩⟩

theorem TypesTrace.list {n : Nat} (types : TypesTrace n) (s : Feed) (held : Held s)
    (near : s.ahead.length < n) : Traces (fun es => Spells (.types es)) s (typeList eof s) := by
  refine (types _ s held near).bind ?_ ?_
  · intro e ts u passes first
    have shorter := passes.length
    refine (types.others u (passes.held held) (by omega)).bind ?_ ?_
    · intro es us v _ others
      refine Traces.pure ?_
      rw [List.append_nil]
      exact first.types others
    · intro es us others
      exact ⟨e :: es, [], by rw [List.append_nil]; exact first.types others⟩
  · intro e ts first
    exact ⟨[e], [], by rw [List.append_nil]; exact .one first⟩

theorem TypesTrace.closed {n : Nat} (types : TypesTrace n) (s : Feed) (held : Held s)
    (near : s.ahead.length ≤ n) :
    Traces (fun es => Spells (.closed es)) s (closedGenerics typeExpr eof s) := by
  rw [closedGenerics_eq]
  refine (expect_traces .less s).bind ?_ ?_
  · intro opening _ u passes found
    obtain ⟨rfl, opens⟩ := found
    have shorter := passes.length
    simp only [List.length_cons, List.length_nil] at shorter
    refine (types.list u (passes.held held) (by omega)).bind ?_ ?_
    · intro es ts v _ inner
      refine (expect_traces .greater v).bind ?_ ?_
      · intro closing _ w _ found
        obtain ⟨rfl, closes⟩ := found
        refine Traces.pure ?_
        simpa using Spells.closed opens inner closes
      · intro closing _ found
        obtain ⟨rfl, closes⟩ := found
        exact ⟨es, [], by simpa using Spells.closed opens inner closes⟩
    · intro es ts inner
      exact ⟨es, [wanted .greater], .closed opens inner rfl⟩
  · intro opening _ found
    obtain ⟨rfl, opens⟩ := found
    exact ⟨_, [wanted .identifier, wanted .greater], .closed opens (.one spells_wanted) rfl⟩

def Args (args : Option (List Expr)) (ts : List Token) : Prop :=
  args = none ∧ ts = [] ∨ ∃ es, args = some es ∧ Spells (.closed es) ts

theorem Spells.withArgs {id : Token} {args : Option (List Expr)} {ts : List Token}
    (named : id.kind = .identifier) (reads : Args args ts) :
    Spells (.type (.ident id.text args)) (id :: ts) := by
  rcases reads with ⟨rfl, rfl⟩ | ⟨es, rfl, list⟩
  · exact .name named
  · exact .applied named list

theorem TypesTrace.generics {n : Nat} (types : TypesTrace n) (s : Feed) (held : Held s)
    (near : s.ahead.length ≤ n) : Traces Args s (genericsAfterName typeExpr eof s) := by
  obtain ⟨_ | ⟨e | t, rest⟩, journal⟩ := s
  · exact ⟨[], Passes.nil _, .inl ⟨rfl, rfl⟩⟩
  · exact ⟨[], _, _, .inr ⟨_, rfl, spells_wanted_list⟩, List.cons_ne_nil _ _, Passes.nil _⟩
  · by_cases opens : t.kind = .less
    · obtain ⟨j, rfl⟩ := held_iff.1 held
      rw [generics_eq_attempt (isNext_found opens), attempt_held]
      refine (types.closed _ held near).bind (fun es ts _ _ spells => Traces.pure ?_)
        fun es ts spells => ⟨some es, [], ?_⟩ <;>
        exact .inr ⟨es, rfl, by rwa [List.append_nil]⟩
    · simp only [genericsAfterName, bind_ok (isNext_other opens)]
      exact Traces.pure (.inl ⟨rfl, rfl⟩)

theorem typeExpr_traces (n : Nat) : TypesTrace n := by
  induction n with
  | zero => exact fun _ _ _ small => absurd small (Nat.not_lt_zero _)
  | succ n types =>
    intro eof s held near
    rw [typeExpr_eq s held, typeStep, identifier, bind_assoc]
    refine (expect_traces .identifier s).bind ?_ ?_
    · intro id _ u passes found
      obtain ⟨rfl, named⟩ := found
      have shorter := passes.length
      simp only [List.length_cons, List.length_nil] at shorter
      rw [pure_bind]
      refine (types.generics u (passes.held held) (by omega)).bind ?_ ?_
      · intro args ts _ _ reads
        refine Traces.pure ?_
        rw [List.append_nil]
        exact .withArgs named reads
      · intro args ts reads
        exact ⟨_, [], by rw [List.append_nil]; exact .withArgs named reads⟩
    · intro id _ found
      obtain ⟨rfl, named⟩ := found
      exact ⟨_, [], .name named⟩

theorem closedGenerics_traces (eof : Span) (s : Feed) (held : Held s) :
    Traces (fun es => Spells (.closed es)) s (closedGenerics typeExpr eof s) :=
  (typeExpr_traces s.ahead.length).closed s held (Nat.le_refl _)

end Frontend.Grammar
