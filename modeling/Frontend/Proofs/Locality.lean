import Frontend.Proofs.ExprTail
import Frontend.Proofs.ProgramReading

-- No declaration looks at what stands behind it.  Only a list of types is looked for further than it is taken,
-- and it goes on with names, commas and angle brackets.  So whoever has come to another token has not been
-- behind it.

namespace Frontend.Grammar

open Surface TokenSource Feed

def Settles (ts : List Token) : Prop := ∃ t ∈ ts, t.kind ∉ typeKinds

variable {ts us rest : List Token} {t : Token}

theorem Settles.left (settles : Settles ts) (us : List Token) : Settles (ts ++ us) := by
  obtain ⟨t, within, other⟩ := settles
  exact ⟨t, List.mem_append_left _ within, other⟩

theorem Settles.right (settles : Settles us) (ts : List Token) : Settles (ts ++ us) := by
  obtain ⟨t, within, other⟩ := settles
  exact ⟨t, List.mem_append_right _ within, other⟩

theorem settles_nil : ¬ Settles [] := by
  rintro ⟨t, ⟨⟩, -⟩

theorem Settles.head (other : t.kind ∉ typeKinds) (ts : List Token) : Settles (t :: ts) :=
  ⟨t, List.mem_cons_self, other⟩

def feedBefore (ts : List Token) (behind : List Answer) : Feed := ⟨ts.map .ok ++ behind, none⟩

-- `x` comes to what was read off `ts`, but in front of the answers behind.
--
-- This is so where the tokens that are left settle the reading, and for the outcomes that are `sure` wherever
-- the rule stops.  Those come behind a token that settled it: one that was taken, or an earlier one if the
-- reading was `settled` from the start.
def Follows {α : Type} (behind : List Answer) (settled : Prop) (sure : α → Prop) (ts : List Token) (a : α)
    (s : Feed) (x : EStateM.Result ReadError Feed α) : Prop :=
  ∃ us rest, ts = us ++ rest ∧ s = feedOf rest ∧ (sure a → settled ∨ Settles us) ∧
    (sure a ∨ Settles rest → x = .ok a (feedBefore rest behind))

-- What `r` reads off tokens, `r'` reads off them in front of anything, wherever the two inputs end.
def Local {α : Type} (behind : List Answer) (settled : Prop) (sure : α → Prop) (r r' : Rule Feed α) : Prop :=
  ∀ eof eof' ts a s, r eof (feedOf ts) = .ok a s →
    Follows behind settled sure ts a s (r' eof' (feedBefore ts behind))

-- Whatever the rule gives may depend on what is left.
def never {α : Type} (_ : α) : Prop := False

section Calculus

variable {α β : Type} {behind : List Answer} {settled : Prop} {sure : α → Prop} {sure' : β → Prop}
  {r r' : Rule Feed α} {f f' : α → Rule Feed β}

theorem Local.pure {a : α} (before : sure a → settled) :
    Local behind settled sure (Pure.pure a) (Pure.pure a) := by
  intro _ _ ts _ _ equal
  cases equal
  exact ⟨[], ts, rfl, rfl, fun given => .inl (before given), fun _ => rfl⟩

theorem Local.failAt {span : Span} {error : SyntaxError} :
    Local behind settled sure (Grammar.failAt span error) r' := by
  intro _ _ ts a s equal
  cases equal

theorem Local.bind (first : Local behind settled sure r r')
    (then_ : ∀ a, Local behind (sure a) sure' (f a) (f' a)) :
    Local behind settled sure' (r >>= f) (r' >>= f') := by
  intro eof eof' ts b s read
  simp only [Bind.bind, ReaderT.bind, EStateM.bind] at read
  split at read
  · next a s' ran =>
    obtain ⟨us, mid, rfl, rfl, taken, same⟩ := first eof eof' ts a s' ran
    obtain ⟨vs, rest, rfl, rfl, taken', same'⟩ := then_ a eof eof' mid b s read
    refine ⟨us ++ vs, rest, (List.append_assoc ..).symm, rfl, fun given => ?_, fun known => ?_⟩
    · rcases taken' given with before | settles
      · exact (taken before).imp_right (·.left vs)
      · exact .inr (settles.right us)
    · have early : sure a ∨ Settles (vs ++ rest) := by
        rcases known with given | settles
        · exact (taken' given).imp_right (·.left rest)
        · exact .inr (settles.right vs)
      exact (bind_ok (same early)).trans (same' known)
  · cases read

-- A rule that refers to itself is local if its step is.
theorem Local.recurse {ι : Type} {step step' : (ι → Rule Feed α) → ι → Rule Feed α}
    (steps : ∀ k k', (∀ j, Local behind False never (k j) (k' j)) →
      ∀ i, Local behind False never (step k i) (step' k' i)) (i : ι) :
    Local behind False never (Grammar.recurse step i) (Grammar.recurse step' i) := by
  suffices bounded : ∀ n i eof eof' ts, ts.length < n → ∀ a s,
      Grammar.recurse step i eof (feedOf ts) = .ok a s →
      Follows behind False never ts a s (Grammar.recurse step' i eof' (feedBefore ts behind)) from
    fun eof eof' ts a s => bounded (ts.length + 1) i eof eof' ts (Nat.lt_succ_self _) a s
  intro n
  induction n with
  | zero => exact fun _ _ _ _ small => absurd small (Nat.not_lt_zero _)
  | succ n ih =>
    intro i eof eof' ts small a s read
    rw [Grammar.recurse] at read
    rw [Grammar.recurse]
    -- A use that was honoured without the answers behind is honoured with them.
    refine steps _ _ (fun j end_ end' us b s' ran => ?_) i eof eof' ts a s read
    by_cases fewer : us.length < ts.length
    · have passed : weight (feedOf us) < weight (feedOf ts) := by simpa [weight, feedOf] using fewer
      have passed' : weight (feedBefore us behind) < weight (feedBefore ts behind) := by
        simpa [weight, feedBefore] using fewer
      simp only [passed, if_true] at ran
      simp only [passed', if_true]
      exact ih j end_ end' us (by omega) b s' ran
    · have stuck : ¬ weight (feedOf us) < weight (feedOf ts) := by simpa [weight, feedOf] using fewer
      simp only [stuck, if_false] at ran
      cases ran

theorem Local.unsure (given : Local behind False sure r r') : Local behind False never r r' := by
  intro eof eof' ts a s read
  obtain ⟨us, rest, same, left, -, alike⟩ := given eof eof' ts a s read
  exact ⟨us, rest, same, left, nofun, fun known => alike (known.imp_left nofun)⟩

theorem Local.anyway (given : Local behind False never r r') : Local behind settled never r r' := by
  intro eof eof' ts a s read
  obtain ⟨us, rest, same, left, -, alike⟩ := given eof eof' ts a s read
  exact ⟨us, rest, same, left, nofun, alike⟩

theorem Local.andThen (first : Local behind False sure r r')
    (then_ : ∀ a, Local behind False never (f a) (f' a)) : Local behind False never (r >>= f) (r' >>= f') :=
  (first.bind fun a => (then_ a).anyway).unsure

theorem Local.give {a : α} : Local behind False never (Pure.pure a) (Pure.pure a) := .pure nofun

theorem Local.congr {x x' : Rule Feed α} (same : ∀ eof s, r eof s = x eof s)
    (same' : ∀ eof s, r' eof s = x' eof s) (given : Local behind settled sure x x') :
    Local behind settled sure r r' := by
  intro eof eof' ts a s read
  rw [same']
  exact given eof eof' ts a s (same _ _ ▸ read)

theorem current_local : Local behind False never current current := by
  intro _ _ ts a s read
  cases ts with
  | nil =>
    cases read
    exact ⟨[], [], rfl, rfl, nofun, (·.elim nofun (absurd · settles_nil))⟩
  | cons t ts =>
    cases read
    exact ⟨[], t :: ts, rfl, rfl, nofun, fun _ => rfl⟩

theorem currentKind_local : Local behind False never currentKind currentKind :=
  current_local.andThen fun _ => .give

theorem isNext_local (kind : TokenKind) : Local behind False never (isNext kind) (isNext kind) :=
  currentKind_local.andThen fun _ => .give

theorem advance_local : Local behind False never advance advance := by
  intro _ _ ts t s read
  cases ts with
  | nil => cases read
  | cons u ts =>
    cases read
    exact ⟨[t], ts, rfl, rfl, nofun, fun _ => rfl⟩

theorem accept_local (kind : TokenKind) :
    Local behind settled (fun found => found.isSome ∧ kind ∉ typeKinds) (accept? kind) (accept? kind) := by
  intro _ _ ts found s read
  cases ts with
  | nil =>
    cases read
    exact ⟨[], [], rfl, rfl, nofun, (·.elim nofun (absurd · settles_nil))⟩
  | cons t ts =>
    by_cases same : t.kind = kind
    · rw [accept_tokens same] at read
      cases read
      exact ⟨[t], ts, rfl, rfl, fun given => .inr (.head (same ▸ given.2) []), fun _ => accept_found same⟩
    · rw [accept_next (.cons same)] at read
      cases read
      exact ⟨[], t :: ts, rfl, rfl, nofun, fun _ => accept_other same⟩

theorem expect_local (kind : TokenKind) :
    Local behind settled (fun _ => kind ∉ typeKinds) (expect kind) (expect kind) := by
  intro _ _ ts t s read
  obtain ⟨rest, rfl, same, rfl⟩ := expect_gives kind _ t s read
  exact ⟨[t], rest, rfl, rfl, fun other => .inr (.head (same ▸ other) []), fun _ => expect_found same⟩

theorem expectAny_local (kinds : List TokenKind) :
    Local behind settled (fun _ => ∀ kind ∈ kinds, kind ∉ typeKinds) (expectAny kinds) (expectAny kinds) := by
  intro _ eof' ts t s read
  obtain ⟨rest, rfl, within, rfl⟩ := expectAny_gives kinds _ t s read
  refine ⟨[t], rest, rfl, rfl, fun others => .inr (.head (others _ within) []), fun _ => ?_⟩
  have first : current eof' (feedBefore (t :: rest) behind) = .ok (some t) (feedBefore (t :: rest) behind) := rfl
  simp only [expectAny, bind_ok first, within, if_true]
  rfl

theorem identifier_local : Local behind False never identifier identifier :=
  (expect_local .identifier).andThen fun _ => .give

end Calculus

end Frontend.Grammar
