import Frontend.Proofs.ExprCompleteness
import Frontend.Proofs.ListingAgreement

-- What stands behind an expression.  A derivation is one as well with more tokens behind it, if these do not
-- go on with a list of types, and it stays one without them.  The braces in it are those of its own segments.

namespace Frontend.Grammar

open Surface

variable {phrase : ExprPhrase} {ts us rest tail : List Token} {t : Token} {depth : Nat}

theorem Spells.kinds {phrase : TypePhrase} (spells : Spells phrase ts) :
    ∀ t ∈ ts, t.kind ∈ typeKinds := by
  induction spells with
  | name named => exact List.forall_mem_singleton.2 (by rw [named]; decide)
  | applied named _ args => exact List.forall_mem_cons.2 ⟨by rw [named]; decide, args⟩
  | one _ first => exact first
  | more _ separates _ first others =>
    exact List.forall_mem_append.2
      ⟨first, List.forall_mem_cons.2 ⟨by rw [separates]; decide, others⟩⟩
  | closed opens _ closes types =>
    exact List.forall_mem_append.2 ⟨List.forall_mem_cons.2 ⟨by rw [opens]; decide, types⟩,
      List.forall_mem_singleton.2 (by rw [closes]; decide)⟩

-- Tokens that a list of types does not go on with.
def Apart (tail : List Token) : Prop := Next (· ∉ typeKinds) tail

theorem Encloses.append (encloses : Encloses rest) : Encloses (rest ++ tail) := by
  obtain ⟨args, list, others, spells, rfl⟩ := encloses
  exact ⟨args, list, others ++ tail, spells, List.append_assoc _ _ _⟩

theorem Encloses.of_append (apart : Apart tail) (encloses : Encloses (rest ++ tail)) : Encloses rest := by
  obtain ⟨args, list, others, spells, same⟩ := encloses
  rcases List.append_eq_append_iff.1 same with ⟨more, rfl, behind⟩ | ⟨more, rfl, -⟩
  · cases more with
    | nil => exact ⟨args, rest, [], by simpa using spells, (List.append_nil _).symm⟩
    | cons t more =>
      have typed := spells.kinds t (by simp)
      rw [behind] at apart
      exact absurd typed (apart t rfl)
  · exact ⟨args, list, more, spells, rfl⟩

theorem Derives.extend (derives : Derives phrase ts rest) (apart : Apart tail) :
    Derives phrase (ts ++ tail) (rest ++ tail) := by
  induction derives with
  | operand _ operand => exact .operand operand
  | binary own _ writes _ left right => exact .binary own left writes right
  | not bang _ operand => exact .not bang operand
  | negate minus _ operand => exact .negate minus operand
  | unprefixed _ operand => exact .unprefixed operand
  | single _ operand => exact .single operand
  | range _ points _ first last => exact .range first points last
  | plain _ primary => exact .plain primary
  | member _ point named operand => exact .member operand point named
  | call _ opens _ closes callee args => exact .call callee opens args closes
  | element _ opens _ closes callee args => exact .element callee opens args closes
  | literal kind worth => exact .literal kind worth
  | name named free => exact .name named (mt (Encloses.of_append apart) free)
  | generic named list =>
    rw [List.append_assoc]
    exact .generic named list
  | group opens _ closes inner => exact .group opens inner closes
  | list opens _ closes items => exact .list opens items closes
  | string opens text closes => exact .string opens text closes
  | interpolation opens text _ closes _ inner pieces => exact .interpolation opens text inner closes pieces
  | none => exact .none
  | last _ item => exact .last item
  | more _ separates _ item items => exact .more item separates items
  | textEnd text closes => exact .textEnd text closes
  | segment text _ closes _ inner pieces => exact .segment text inner closes pieces

-- Where the tokens behind a phrase end in `tail`, those from its start on do as well, and the phrase is one without
-- them.
def Retracts (tail : List Token) (phrase : List Token → List Token → Prop) (us rest : List Token) : Prop :=
  ∀ vs, rest = vs ++ tail → ∃ ts, us = ts ++ tail ∧ phrase ts vs

namespace Retracts

variable {P Q R : List Token → List Token → Prop} {mid : List Token}

theorem imp (retracts : Retracts tail P us rest) (step : ∀ ts vs, P ts vs → Q ts vs) :
    Retracts tail Q us rest := by
  intro vs same
  obtain ⟨ts, rfl, phrase⟩ := retracts vs same
  exact ⟨ts, rfl, step ts vs phrase⟩

-- The phrase is all of these tokens.
theorem tokens (own : List Token) (step : ∀ vs, rest = vs ++ tail → P (own ++ vs) vs) :
    Retracts tail P (own ++ rest) rest := by
  rintro vs rfl
  exact ⟨own ++ vs, (List.append_assoc _ _ _).symm, step vs rfl⟩

theorem behind (retracts : Retracts tail P us rest) (step : ∀ ts vs, P ts vs → Q (t :: ts) vs) :
    Retracts tail Q (t :: us) rest := by
  intro vs same
  obtain ⟨ts, rfl, phrase⟩ := retracts vs same
  exact ⟨t :: ts, rfl, step ts vs phrase⟩

theorem before (retracts : Retracts tail P us (t :: rest)) (step : ∀ ts vs, P ts (t :: vs) → Q ts vs) :
    Retracts tail Q us rest := by
  rintro vs rfl
  obtain ⟨ts, rfl, phrase⟩ := retracts (t :: vs) rfl
  exact ⟨ts, rfl, step ts vs phrase⟩

-- Two phrases with a token between them.
theorem around (first : Retracts tail P us (t :: mid)) (second : Retracts tail Q mid rest)
    (step : ∀ ts ms vs, P ts (t :: ms) → Q ms vs → R ts vs) : Retracts tail R us rest := by
  intro vs same
  obtain ⟨ms, rfl, later⟩ := second vs same
  obtain ⟨ts, rfl, earlier⟩ := first (t :: ms) rfl
  exact ⟨ts, rfl, step ts ms vs earlier later⟩

end Retracts

theorem Derives.retract (derives : Derives phrase us rest) : Retracts tail (Derives phrase) us rest := by
  induction derives with
  | operand _ operand => exact operand.imp fun _ _ => .operand
  | binary own _ writes _ left right => exact left.around right fun _ _ _ left' => .binary own left' writes
  | not bang _ operand => exact operand.behind fun _ _ => .not bang
  | negate minus _ operand => exact operand.behind fun _ _ => .negate minus
  | unprefixed _ operand => exact operand.imp fun _ _ => .unprefixed
  | single _ operand => exact operand.imp fun _ _ => .single
  | range _ points _ first last => exact first.around last fun _ _ _ first' => .range first' points
  | plain _ primary => exact primary.imp fun _ _ => .plain
  | member _ point named operand =>
    exact (operand.before fun _ _ => id).before fun _ _ operand' => .member operand' point named
  | call _ opens _ closes callee args =>
    exact callee.around (args.before fun _ _ => id) fun _ _ _ callee' args' => .call callee' opens args' closes
  | element _ opens _ closes callee args =>
    exact callee.around (args.before fun _ _ => id) fun _ _ _ callee' args' => .element callee' opens args' closes
  | literal kind worth => exact .tokens [_] fun _ _ => .literal kind worth
  | name named free => exact .tokens [_] fun vs same => .name named (mt Encloses.append (same ▸ free))
  | generic named list => exact .tokens (_ :: _) fun vs _ => .generic named list
  | group opens _ closes inner =>
    exact (inner.before fun _ _ => id).behind fun _ _ inner' => .group opens inner' closes
  | list opens _ closes items =>
    exact (items.before fun _ _ => id).behind fun _ _ items' => .list opens items' closes
  | string opens text closes => exact .tokens [_, _, _] fun _ _ => .string opens text closes
  | interpolation opens text _ closes _ inner pieces =>
    refine ((inner.around pieces fun _ _ _ inner' pieces' => ?_).behind fun _ _ => id).behind fun _ _ => id
    exact .interpolation opens text inner' closes pieces'
  | none => exact .tokens [] fun _ _ => .none
  | last _ item => exact item.imp fun _ _ => .last
  | more _ separates _ item items => exact item.around items fun _ _ _ item' => .more item' separates
  | textEnd text closes => exact .tokens [_, _] fun _ _ => .textEnd text closes
  | segment text _ closes _ inner pieces =>
    refine (inner.around pieces fun _ _ _ inner' pieces' => ?_).behind fun _ _ => id
    exact .segment text inner' closes pieces'

-- The tokens lead from inside of `depth` segments to the outside of all segments.  There braces stand only
-- if they are `free`.
inductive Walks (free : Prop) : Nat → List Token → Prop where
  | done : Walks free 0 []
  | ordinary {depth : Nat} {t : Token} {ts : List Token} : Ordinary t.kind → Walks free depth ts →
      Walks free depth (t :: ts)
  | literal {depth : Nat} {text : Token} {ts : List Token} : text.kind = .stringText →
      ts.head?.map Token.kind = some .stringEnd → Walks free depth ts → Walks free depth (text :: ts)
  | opens {depth : Nat} {text : Token} {ts : List Token} : text.kind = .stringText →
      ts.head?.map Token.kind ≠ some .stringEnd → Walks free (depth + 1) ts → Walks free depth (text :: ts)
  | closes {depth : Nat} {brace : Token} {ts : List Token} : brace.kind = .rightBrace →
      Walks free depth ts → Walks free (depth + 1) (brace :: ts)
  | outside {t : Token} {ts : List Token} : free → t.kind ≠ .stringText → Walks free 0 ts →
      Walks free 0 (t :: ts)

variable {free : Prop}

theorem Walks.append (ordinary : ∀ t ∈ us, Ordinary t.kind) (walks : Walks free depth ts) :
    Walks free depth (us ++ ts) := by
  induction us with
  | nil => exact walks
  | cons t us ih =>
    obtain ⟨first, others⟩ := List.forall_mem_cons.1 ordinary
    exact .ordinary first (ih others)

theorem Walks.token {kind : TokenKind} (same : t.kind = kind) (walks : Walks free depth ts)
    (ordinary : Ordinary kind := by decide) : Walks free depth (t :: ts) :=
  .ordinary (same ▸ ordinary) walks

-- A text that an expression follows opens a segment.
theorem Derives.opens {level : Nat} {e : Expr} (derives : Derives (.infixed level e) ts rest)
    (text : t.kind = .stringText) (walks : Walks free (depth + 1) ts) : Walks free depth (t :: ts) := by
  refine .opens text (fun ends => ?_) walks
  obtain ⟨u, others, rfl, starts⟩ := derives.starts
  rw [Option.some.inj ends] at starts
  exact absurd starts (by decide)

theorem Writes.ordinary {op : BinaryOperator} {own : Nat} {kind : TokenKind}
    (writes : Writes kind op own) : Ordinary kind := by
  have found := writes_iff.1 writes
  cases kind <;> first | decide | cases found

theorem literalKinds_ordinary : ∀ kind ∈ literalKinds, Ordinary kind := by decide

theorem Derives.walks (derives : Derives phrase ts rest) :
    ∀ {depth}, Walks free depth rest → Walks free depth ts := by
  induction derives with
  | operand _ inner | unprefixed _ inner | single _ inner | plain _ inner | last _ inner => exact inner
  | binary _ _ writes _ left right =>
    intro depth walks
    exact left (.ordinary writes.ordinary (right walks))
  | not kind _ operand | negate kind _ operand =>
    intro depth walks
    exact .token kind (operand walks)
  | range _ points _ first last =>
    intro depth walks
    exact first (.token points (last walks))
  | member _ point named operand =>
    intro depth walks
    exact operand (.token point (.token named walks))
  | call _ opens _ closes callee args | element _ opens _ closes callee args =>
    intro depth walks
    exact callee (.token opens (args (.token closes walks)))
  | literal kind _ => exact .ordinary (literalKinds_ordinary _ kind)
  | name named _ => exact .token named
  | generic named list =>
    intro depth walks
    exact .token named (.append (fun t within => typeKinds_ordinary _ (list.kinds t within)) walks)
  | group opens _ closes inner | list opens _ closes inner =>
    intro depth walks
    exact .token opens (inner (.token closes walks))
  | string opens text closes =>
    intro depth walks
    exact .token opens (.literal text (congrArg some closes) (.token closes walks))
  | interpolation opens text derives closes _ inner pieces =>
    intro depth walks
    exact .token opens (derives.opens text (inner (.closes closes (pieces walks))))
  | none => exact id
  | more _ separates _ item items =>
    intro depth walks
    exact item (.token separates (items walks))
  | textEnd text closes =>
    intro depth walks
    exact .literal text (congrArg some closes) (.token closes walks)
  | segment text derives closes _ inner pieces =>
    intro depth walks
    exact derives.opens text (inner (.closes closes (pieces walks)))

end Frontend.Grammar
