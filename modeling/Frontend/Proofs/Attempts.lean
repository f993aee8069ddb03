import Frontend.Proofs.TypeLists

-- What an attempt to read type arguments comes to.  It depends on the answers that are to come: they begin
-- with a closed list of types, or an error cuts such a list short, or neither.

namespace Frontend.Grammar

open Surface TokenSource Feed

-- The same tokens on both sides, up to where an error on the first one cuts them short.  `ts` are those
-- before the error, from the start of the attempt.
def Cut (e : Located LexicalError) (rest : List Answer) (ts more : List Token) (s t : Feed) : Prop :=
  ∃ us j, s = ⟨us.map .ok ++ .error e :: rest, some j⟩ ∧ t = ⟨(us ++ more).map .ok, some j⟩ ∧
    j.reverse ++ us = ts

-- The first run may fail with that error, and no other way.
def cutFaults (eof : Span) (e : Located LexicalError) (rest : List Answer) (ts : List Token) :
    Faults Feed Feed where
  eof := eof
  eof' := eof
  both _ _ _ _ := True
  first failure s := failure = .lexical e ∧ s = ⟨rest, some ts.reverse⟩

section Cut

variable {eof : Span} {e : Located LexicalError} {rest : List Answer} {ts more : List Token}

theorem cut_lock : Lock Eq (fun _ => True) (cutFaults eof e rest ts)
    (Cut e rest ts more) (Cut e rest ts more) where
  look := by
    rintro _ _ ⟨_ | ⟨u, us⟩, j, rfl, rfl, same⟩
    · refine .first ⟨rfl, ?_⟩
      rw [← same, List.append_nil, List.reverse_reverse]
    · exact .ok ⟨.some ⟨rfl, rfl, rfl, rfl⟩, u :: us, j, rfl, rfl, same⟩
  take := by
    rintro _ _ ⟨_ | ⟨u, us⟩, j, rfl, rfl, same⟩
    · refine .first ⟨rfl, ?_⟩
      rw [← same, List.append_nil, List.reverse_reverse]
    · refine .ok ⟨⟨rfl, rfl, rfl, rfl⟩, fun _ => ⟨us, u :: j, rfl, rfl, ?_⟩⟩
      rw [← same, List.reverse_cons, List.append_assoc]
      rfl
  fault _ _ _ _ := trivial
  ended _ := trivial

theorem cut_sealed : Sealed (Cut e rest ts more) := by
  intro _ _ found
  obtain ⟨us, j, rfl, rfl, _⟩ := found
  exact ⟨rfl, rfl⟩

-- A list that an error cuts short ends in that error.
theorem closedGenerics_cut {args : List Expr} (spells : Spells (.closed args) (ts ++ more))
    (owes : more ≠ []) : closedGenerics typeExpr (σ := Feed) eof ⟨ts.map .ok ++ .error e :: rest, some []⟩ =
      .error (.lexical e) ⟨rest, some ts.reverse⟩ := by
  have lock : Lock Eq (fun _ => True) (cutFaults eof e rest ts) (Cut e rest ts more)
    (Cut e rest ts more) := cut_lock
  have types := lock.typeExpr_sealed cut_sealed fun _ _ => trivial
  have outcome : Agree (cutFaults eof e rest ts) _ (closedGenerics typeExpr eof _)
      (closedGenerics typeExpr eof _) :=
    (lock.closedGenerics (fun _ _ => trivial) types).carries _ _ ⟨ts, [], rfl, rfl, rfl⟩
  have whole := spells.reads eof [] []
  rw [List.append_nil] at whole
  rw [whole] at outcome
  generalize closedGenerics typeExpr (σ := Feed) eof ⟨ts.map .ok ++ .error e :: rest, some []⟩ = x
    at outcome ⊢
  cases outcome with
  | ok good =>
    -- The whole list is read on the other side, so that nothing is left of `more`.
    obtain ⟨us, j, -, ended, -⟩ := good.2
    have nothing : (us ++ more).map Except.ok = ([] : List Answer) := (congrArg Feed.ahead ended).symm
    rw [List.map_eq_nil_iff, List.append_eq_nil_iff] at nothing
    exact absurd nothing.2 owes
  | first bad => rw [bad.1, bad.2]

end Cut

-- The answers begin with a closed list of types, and `rest` are those behind it.
def Begins (args : List Expr) (rest answers : List Answer) : Prop :=
  ∃ ts, Spells (.closed args) ts ∧ answers = ts.map .ok ++ rest

-- The answers begin with tokens that a closed list could begin with, and with an error behind them
-- before the list is closed; `rest` are the answers without the error.
def Breaks (e : Located LexicalError) (rest answers : List Answer) : Prop :=
  ∃ ts more args others, Spells (.closed args) (ts ++ more) ∧ more ≠ [] ∧
    answers = ts.map .ok ++ .error e :: others ∧ rest = ts.map .ok ++ others

variable {eof : Span} {args : List Expr} {e : Located LexicalError} {rest answers : List Answer}

theorem generics_begins (begins : Begins args rest answers) :
    genericsAfterName typeExpr (σ := Feed) eof ⟨answers, none⟩ = .ok (some args) ⟨rest, none⟩ := by
  obtain ⟨ts, spells, rfl⟩ := begins
  obtain ⟨t, others, rfl, opens⟩ := opens_closed spells
  exact (generics_eq_attempt (isNext_found opens)).trans (attempt_ok rfl (spells.reads _ rest []))

theorem generics_breaks (breaks : Breaks e rest answers) :
    genericsAfterName typeExpr (σ := Feed) eof ⟨answers, none⟩ = .error (.lexical e) ⟨rest, none⟩ := by
  obtain ⟨ts, more, args, others, spells, owes, rfl, rfl⟩ := breaks
  cases ts with
  | nil => rfl
  | cons t ts =>
    obtain ⟨_, _, same, opens⟩ := opens_closed spells
    cases same
    refine (generics_eq_attempt (isNext_found opens)).trans
      ((attempt_failed rfl (closedGenerics_cut spells owes)).trans ?_)
    have back : Feed.reset ⟨others, some (t :: ts).reverse⟩ = ⟨(t :: ts).map .ok ++ others, none⟩ := by
      simp only [Feed.reset, Option.getD_some, List.reverse_reverse]
    exact congrArg (EStateM.Result.error (ReadError.lexical e)) back

theorem generics_neither (noList : ∀ args rest, ¬ Begins args rest answers)
    (noError : ∀ e rest, ¬ Breaks e rest answers) :
    genericsAfterName typeExpr (σ := Feed) eof ⟨answers, none⟩ = .ok none ⟨answers, none⟩ := by
  obtain _ | ⟨e | t, others⟩ := answers
  · rfl
  · exact (noError e others ⟨[], _, _, others, spells_wanted_list, List.cons_ne_nil _ _, rfl, rfl⟩).elim
  · by_cases opens : t.kind = .less
    · refine (generics_eq_attempt (isNext_found opens)).trans ?_
      have traces := closedGenerics_traces eof ⟨.ok t :: others, some []⟩ rfl
      generalize ran : closedGenerics typeExpr (σ := Feed) eof ⟨.ok t :: others, some []⟩ = x at traces
      rcases x with ⟨args, s⟩ | ⟨e | _, s⟩
      · obtain ⟨ts, passes, spells⟩ := traces
        exact (noList args s.ahead ⟨ts, spells, passes.ahead⟩).elim
      · obtain ⟨ts, more, args, spells, owes, passes⟩ := traces
        exact (noError e _ ⟨ts, more, args, s.ahead, spells, owes, passes.ahead, rfl⟩).elim
      · obtain ⟨ts, passes⟩ := traces
        refine (attempt_failed rfl ran).trans (congrArg (EStateM.Result.ok none) ?_)
        have ahead := passes.ahead
        have journal := passes.journal
        simp only [Option.map_some, List.append_nil] at journal
        simp only [TokenSource.reset, Feed.reset, journal, Option.getD_some, List.reverse_reverse,
          ← ahead]
    · simp only [genericsAfterName, bind_ok (isNext_other opens)]
      rfl

theorem generics_outcome (eof : Span) (answers : List Answer) :
    (∃ args rest, Begins args rest answers ∧
      genericsAfterName typeExpr (σ := Feed) eof ⟨answers, none⟩ = .ok (some args) ⟨rest, none⟩) ∨
    (∃ e rest, Breaks e rest answers ∧
      genericsAfterName typeExpr (σ := Feed) eof ⟨answers, none⟩ = .error (.lexical e) ⟨rest, none⟩) ∨
    genericsAfterName typeExpr (σ := Feed) eof ⟨answers, none⟩ = .ok none ⟨answers, none⟩ := by
  by_cases list : ∃ args rest, Begins args rest answers
  · obtain ⟨args, rest, begins⟩ := list
    exact .inl ⟨args, rest, begins, generics_begins begins⟩
  · by_cases error : ∃ e rest, Breaks e rest answers
    · obtain ⟨e, rest, breaks⟩ := error
      exact .inr (.inl ⟨e, rest, breaks, generics_breaks breaks⟩)
    · exact .inr (.inr (generics_neither (fun args rest begins => list ⟨args, rest, begins⟩)
        fun e rest breaks => error ⟨e, rest, breaks⟩))

end Frontend.Grammar
