import Frontend.Proofs.ProgramReading
import Frontend.Proofs.TokenValues
import Mathlib.Data.List.Forall2

-- What is read depends on the tokens only, and not on where they stand.  Two feeds of tokens that have the
-- same kinds, texts and values move in step, so that every rule gives the same on both, or fails on both at
-- tokens that belong together.

namespace Frontend

open Grammar TokenSource Surface

-- Answers that belong together: tokens that do, or `faults`.
inductive AlikeAnswers (place : Span → Span → Prop) (faults : Located LexicalError → Located LexicalError → Prop) :
    Answer → Answer → Prop where
  | token {t u : Token} : Alike place t u → AlikeAnswers place faults (.ok t) (.ok u)
  | fault {e f : Located LexicalError} : faults e f → AlikeAnswers place faults (.error e) (.error f)

-- What is ahead belongs together, and so do the tokens that can be put back, if any can.
inductive Beside (place : Span → Span → Prop) (faults : Located LexicalError → Located LexicalError → Prop) :
    Bool → Feed → Feed → Prop where
  | free {xs ys : List Answer} : List.Forall₂ (AlikeAnswers place faults) xs ys →
      Beside place faults false ⟨xs, none⟩ ⟨ys, none⟩
  | held {xs ys : List Answer} {js ks : List Token} : List.Forall₂ (AlikeAnswers place faults) xs ys →
      List.Forall₂ (Alike place) js ks → Beside place faults true ⟨xs, some js⟩ ⟨ys, some ks⟩

inductive FailsAlike (place : Span → Span → Prop) (faults : Located LexicalError → Located LexicalError → Prop)
    (eof eof' : Span) : ReadError → ReadError → Prop where
  | placed {a b : Span} {e : SyntaxError} : place a b →
      FailsAlike place faults eof eof' (.grammatical ⟨a, e⟩) (.grammatical ⟨b, e⟩)
  | lexical {e f : Located LexicalError} : faults e f → FailsAlike place faults eof eof' (.lexical e) (.lexical f)
  | ended : FailsAlike place faults eof eof' (.grammatical ⟨eof, .unexpectedEnd⟩) (.grammatical ⟨eof', .unexpectedEnd⟩)

def besideFaults (place : Span → Span → Prop) (faults : Located LexicalError → Located LexicalError → Prop)
    (eof eof' : Span) (held : Bool) : Faults Feed Feed where
  eof := eof
  eof' := eof'
  both e f s t := FailsAlike place faults eof eof' e f ∧ Beside place faults held s t
  first _ _ := False

variable {place : Span → Span → Prop} {faults : Located LexicalError → Located LexicalError → Prop} {held : Bool}
  {eof eof' : Span}

theorem beside_lock : Lock place (fun _ => True) (besideFaults place faults eof eof' held) (Beside place faults held)
    (Beside place faults held) where
  look s t beside := by
    cases beside with
    | free ahead =>
      cases ahead with
      | nil => exact .ok ⟨.none, .free .nil⟩
      | cons first others =>
        cases first with
        | token alike => exact .ok ⟨.some alike, .free (.cons (.token alike) others)⟩
        | fault met => exact .failed ⟨.lexical met, .free others⟩
    | held ahead journal =>
      cases ahead with
      | nil => exact .ok ⟨.none, .held .nil journal⟩
      | cons first others =>
        cases first with
        | token alike => exact .ok ⟨.some alike, .held (.cons (.token alike) others) journal⟩
        | fault met => exact .failed ⟨.lexical met, .held others journal⟩
  take s t beside := by
    cases beside with
    | free ahead =>
      cases ahead with
      | nil => exact .ok (.free .nil)
      | cons first others =>
        cases first with
        | token alike => exact .ok ⟨alike, fun _ => .free others⟩
        | fault met => exact .failed ⟨.lexical met, .free others⟩
    | held ahead journal =>
      cases ahead with
      | nil => exact .ok (.held .nil journal)
      | cons first others =>
        cases first with
        | token alike => exact .ok ⟨alike, fun _ => .held others (.cons alike journal)⟩
        | fault met => exact .failed ⟨.lexical met, .held others journal⟩
  fault beside near _ _ := ⟨.placed near, beside⟩
  ended beside := ⟨.ended, beside⟩

theorem beside_sealed : Sealed (Beside place faults true) := by
  intro s t beside
  cases beside
  exact ⟨rfl, rfl⟩

theorem alike_tokens {ts us : List Token} (alike : List.Forall₂ (Alike place) ts us) :
    List.Forall₂ (AlikeAnswers place faults) (ts.map .ok) (us.map .ok) := by
  simp only [List.forall₂_map_left_iff, List.forall₂_map_right_iff]
  exact alike.imp fun _ _ => .token

theorem beside_tokens {ts us : List Token} (alike : List.Forall₂ (Alike place) ts us) :
    Beside place faults false (feedOf ts) (feedOf us) :=
  .free (alike_tokens alike)

theorem Beside.reset {s t : Feed} (beside : Beside place faults true s t) :
    Beside place faults false (TokenSource.reset s) (TokenSource.reset t) := by
  cases beside with
  | held ahead journal => exact .free (List.rel_append (alike_tokens (List.rel_reverse journal)) ahead)

theorem beside_opens : Opens (besideFaults place faults eof eof' false) (Beside place faults false)
    (besideFaults place faults eof eof' true) (Beside place faults true) where
  eof := rfl
  eof' := rfl
  begins beside := by
    cases beside with
    | free ahead => exact ⟨_, _, rfl, rfl, .held ahead .nil⟩
  commits beside := by
    cases beside with
    | held ahead _ => exact .free ahead
  alike bad := by
    cases bad.1 <;> rfl
  fails bad _ := ⟨bad.1, bad.2.reset⟩
  resets bad _ := bad.2.reset
  first bad := bad.elim

theorem beside_attempts :
    Attempts place (fun _ => True) (besideFaults place faults eof eof' false) (Beside place faults false) :=
  .inr ⟨_, _, beside_opens, beside_lock, beside_sealed⟩

theorem beside_weave : Weave place (besideFaults place faults eof eof' false) (fun _ => Beside place faults false)
    (fun _ => Beside place faults false) (fun _ => Beside place faults false) (fun _ => Beside place faults false) where
  look _ := beside_lock.look
  take depth s t start := (beside_lock.take s t start).mono fun a b s' t' good => by
    cases a <;> cases b
    · exact good
    · exact good
    · exact good
    · next x y =>
      refine ⟨good.1, ?_, beside_lock.fault (good.2 trivial) good.1.span⟩
      cases depth <;> cases x.kind <;> first | exact good.2 trivial | trivial
  fault := beside_lock.fault
  ended := beside_lock.ended
  afterText _ := beside_lock.look.mono fun _ _ _ _ good => ⟨good.1, by split <;> exact good.2⟩
  resume _ s t start := .ok ⟨rfl, start⟩
  generics start _ := beside_lock.generics beside_attempts (fun _ _ => trivial) _ _ start

theorem beside_ground : Ground place (besideFaults place faults eof eof' false) (Beside place faults false) where
  lock := beside_weave.outside
  expr := beside_weave.expr 0
  type := beside_lock.typeExpr beside_attempts fun _ _ => trivial

-- The spans of two tokens that stand at the same place of their lists.
def Matched (ts us : List Token) (a b : Span) : Prop :=
  ∃ (n : Nat) (t u : Token), ts[n]? = some t ∧ us[n]? = some u ∧ a = t.span ∧ b = u.span

-- Both inputs, which are of the given lengths, are read as the same tree; or both are refused for the
-- same reason, at tokens that belong together or at their ends.
inductive ReadAlike {α : Type} (ts us : List Token) (m n : Nat) :
    Except ReadError α → Except ReadError α → Prop where
  | tree {a : α} : ReadAlike ts us m n (.ok a) (.ok a)
  | refused {a b : Span} {e : SyntaxError} : Matched ts us a b →
      ReadAlike ts us m n (.error (.grammatical ⟨a, e⟩)) (.error (.grammatical ⟨b, e⟩))
  | ended : ReadAlike ts us m n (.error (.grammatical ⟨Span.empty m, .unexpectedEnd⟩))
      (.error (.grammatical ⟨Span.empty n, .unexpectedEnd⟩))

section Lists

variable {α : Type} {ts us : List Token} {rule : Rule Feed α}

-- No fault is among the answers.
theorem runs_alike {m n : Nat}
    (carries : Carries (besideFaults (Matched ts us) (fun _ _ => False) (.empty m) (.empty n) false)
      (Beside (Matched ts us) (fun _ _ => False) false) (same (Beside (Matched ts us) (fun _ _ => False) false))
      rule rule)
    (alike : List.Forall₂ (Alike (Matched ts us)) ts us) :
    ReadAlike ts us m n (runOn rule (feedOf ts) m) (runOn rule (feedOf us) n) := by
  rcases carries.runs (beside_tokens alike) rfl rfl with ⟨a, b, s, t, ran, ran', rfl, -⟩ |
      ⟨e, f, s, t, ran, ran', bad, -⟩ | ⟨_, _, -, bad⟩
  · rw [ran, ran']
    exact .tree
  · rw [ran, ran']
    cases bad with
    | placed near => exact .refused near
    | lexical met => exact met.elim
    | ended => exact .ended
  · exact bad.elim

-- Tokens of the same kinds and texts are alike, because these tell what the tokens are worth.
theorem alike_of_spelled (worth : ∀ t ∈ ts, t.Spelled) (worth' : ∀ u ∈ us, u.Spelled)
    (same : ts.map (fun t => (t.kind, t.text)) = us.map fun t => (t.kind, t.text)) :
    List.Forall₂ (Alike (Matched ts us)) ts us := by
  have long : ts.length = us.length := by
    simpa using congrArg List.length same
  refine List.forall₂_iff_get.2 ⟨long, fun n small small' => ?_⟩
  have pair : (ts[n].kind, ts[n].text) = (us[n].kind, us[n].text) := by
    simpa [small, small'] using congrArg (·[n]?) same
  have kind := congrArg Prod.fst pair
  have text := congrArg Prod.snd pair
  exact ⟨kind, text, (worth _ (List.getElem_mem small)).value_eq (worth' _ (List.getElem_mem small')) kind text,
    n, ts[n], us[n], List.getElem?_eq_getElem small, List.getElem?_eq_getElem small', rfl, rfl⟩

end Lists

-- Two sources that are listed with the same kinds and texts of tokens are read alike, both as programs and
-- as expressions.
theorem reading_by_tokens {a b : String} {ts us : List Token} (first : tokensOf a = .ok ts)
    (second : tokensOf b = .ok us)
    (same : ts.map (fun t => (t.kind, t.text)) = us.map fun t => (t.kind, t.text)) :
    ReadAlike ts us a.utf8ByteSize b.utf8ByteSize (readProgram a) (readProgram b) ∧
      ReadAlike ts us a.utf8ByteSize b.utf8ByteSize (readExpr a) (readExpr b) := by
  have alike := alike_of_spelled (tokensOf_spelled first) (tokensOf_spelled second) same
  rw [readProgram_listed first, readProgram_listed second, readExpr_listed first, readExpr_listed second]
  exact ⟨runs_alike beside_ground.program alike, runs_alike beside_weave.wholeExpr alike⟩

-- Blanks around the parts of a range, in a segment of a string.
theorem spaced_variable_read_alike :
    let a := "var x=\"$\x7b1..2\x7d\";"
    let b := "var x = \"$\x7b 1 .. 2 \x7d\" ;"
    ∃ ts us, tokensOf a = .ok ts ∧ tokensOf b = .ok us ∧
      ReadAlike ts us 16 23 (readProgram a) (readProgram b) := by
  intro a b
  have listed : (tokensOf a).isOk = true ∧ (tokensOf b).isOk = true := by decide +kernel
  have same : (tokensOf a).toOption.map (List.map fun t => (t.kind, t.text)) =
      (tokensOf b).toOption.map (List.map fun t => (t.kind, t.text)) := by decide +kernel
  cases first : tokensOf a with
  | error e => rw [first] at listed; cases listed.1
  | ok ts =>
    cases second : tokensOf b with
    | error e => rw [second] at listed; cases listed.2
    | ok us =>
      rw [first, second] at same
      exact ⟨ts, us, rfl, rfl, (reading_by_tokens first second (Option.some.inj same)).1⟩

end Frontend
