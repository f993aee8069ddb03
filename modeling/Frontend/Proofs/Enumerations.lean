import Frontend.Proofs.Growth
import Frontend.Proofs.PhraseKinds
import Mathlib.Data.List.Forall2

-- The enums of a source, as tokens and as declarations.  A declaration of an enum stands at each keyword for
-- one, and nowhere else.

namespace Frontend.Grammar

open Surface Typing

variable {ts us rest : List Token} {t : Token} {kind : TokenKind} {scope next : Nat}

-- The rest of the tokens from each keyword for an enum on.
def enumTexts : List Token → List (List Token)
  | [] => []
  | t :: ts => if t.kind = .enumKeyword then (t :: ts) :: enumTexts ts else enumTexts ts

theorem enumTexts_keyword (enum : t.kind = .enumKeyword) : enumTexts (t :: ts) = (t :: ts) :: enumTexts ts :=
  if_pos enum

theorem enumTexts_other (same : t.kind = kind) (other : kind ≠ .enumKeyword := by decide) :
    enumTexts (t :: ts) = enumTexts ts :=
  if_neg (same ▸ other)

theorem noEnum_of_phrase (within : kind ∈ phraseKinds) : kind ≠ .enumKeyword := by
  rintro rfl
  exact absurd within (by decide)

theorem enumTexts_phrased (phrased : Phrased us) : enumTexts (us ++ ts) = enumTexts ts := by
  induction us with
  | nil => rfl
  | cons t us ih =>
    obtain ⟨first, others⟩ := List.forall_mem_cons.1 phrased
    exact (enumTexts_other rfl (noEnum_of_phrase first)).trans (ih others)

theorem mem_enumTexts : us ∈ enumTexts ts → (∃ t rest, us = t :: rest ∧ t.kind = .enumKeyword) ∧ us <:+ ts := by
  induction ts with
  | nil => exact nofun
  | cons t ts ih =>
    intro among
    have later (among : us ∈ enumTexts ts) : (∃ t rest, us = t :: rest ∧ t.kind = .enumKeyword) ∧ us <:+ t :: ts :=
      ⟨(ih among).1, (ih among).2.trans (List.suffix_cons t ts)⟩
    rw [enumTexts] at among
    split at among
    · next enum =>
      rcases List.mem_cons.1 among with rfl | among
      · exact ⟨⟨t, ts, rfl, enum⟩, List.suffix_refl _⟩
      · exact later among
    · exact later among

theorem Writes.noEnum {op : BinaryOperator} {own : Nat} (writes : Writes kind op own) :
    kind ≠ .enumKeyword := by
  rintro rfl
  cases writes_iff.1 writes

theorem literal_noEnum (literal : kind ∈ literalKinds) : kind ≠ .enumKeyword := by
  rintro rfl
  exact absurd literal (by decide)

-- There is no enum in an expression.
theorem Derives.noEnum {phrase : ExprPhrase} (derives : Derives phrase ts rest) :
    enumTexts ts = enumTexts rest := by
  induction derives with
  | operand _ inner | unprefixed _ inner | single _ inner | plain _ inner | last _ inner => exact inner
  | none => rfl
  | binary _ _ writes _ left right => rw [left, enumTexts_other rfl writes.noEnum, right]
  | not kind _ operand | negate kind _ operand => rw [enumTexts_other kind, operand]
  | range _ points _ first last => rw [first, enumTexts_other points, last]
  | member _ point named operand => rw [operand, enumTexts_other point, enumTexts_other named]
  | call _ opens _ closes callee args | element _ opens _ closes callee args =>
    rw [callee, enumTexts_other opens, args, enumTexts_other closes]
  | literal kind _ => rw [enumTexts_other rfl (literal_noEnum kind)]
  | name named _ => rw [enumTexts_other named]
  | generic named list => rw [List.cons_append, enumTexts_other named, enumTexts_phrased list.phrased]
  | group opens _ closes inner | list opens _ closes inner =>
    rw [enumTexts_other opens, inner, enumTexts_other closes]
  | string opens text closes => rw [enumTexts_other opens, enumTexts_other text, enumTexts_other closes]
  | interpolation opens text _ closes _ inner pieces =>
    rw [enumTexts_other opens, enumTexts_other text, inner, enumTexts_other closes, pieces]
  | more _ separates _ item items => rw [item, enumTexts_other separates, items]
  | textEnd text closes => rw [enumTexts_other text, enumTexts_other closes]
  | segment text _ closes _ inner pieces => rw [enumTexts_other text, inner, enumTexts_other closes, pieces]

mutual

-- The enums in a node, each with the number that is due to its entry; `next` is the first number that is free.
-- In a getter there is none.
def enumerations (scope next : Nat) : Node → List (Nat × Node)
  | .enumeration name members => [(next, .enumeration name members)]
  | .classDecl _ _ children => enumerationsAll next (next + 1) children
  | .root children => enumerationsAll scope next children
  | _ => []

def enumerationsAll (scope next : Nat) : List Node → List (Nat × Node)
  | [] => []
  | node :: nodes =>
    enumerations scope next node ++ enumerationsAll scope (next + (nodeSites scope next node).length) nodes

end

-- The declarations `listed` are those at the keywords between `ts` and `rest`.
def Locates (endings : Endings) (listed : List (Nat × Node)) (ts rest : List Token) : Prop :=
  ∃ texts, enumTexts ts = texts ++ enumTexts rest ∧
    List.Forall₂ (fun us e => ∃ behind, Declares endings (.node .scope e.2) us behind) texts listed

namespace Locates

variable {endings : Endings} {listed others : List (Nat × Node)} {mid : List Token}

theorem none (same : enumTexts ts = enumTexts rest) : Locates endings [] ts rest := ⟨[], same, .nil⟩

theorem append (first : Locates endings listed ts mid) (then_ : Locates endings others mid rest) :
    Locates endings (listed ++ others) ts rest := by
  obtain ⟨texts, split, declared⟩ := first
  obtain ⟨texts', split', declared'⟩ := then_
  exact ⟨texts ++ texts', by rw [split, split', List.append_assoc], List.rel_append declared declared'⟩

end Locates

-- What a phrase says of the keywords for enums in it.
def Enumerates (endings : Endings) : NodePhrase → List Token → List Token → Prop
  | .nodes .scope nodes, ts, rest => ∀ scope next, Locates endings (enumerationsAll scope next nodes) ts rest
  | .node .scope node, ts, rest => ∀ scope next, Locates endings (enumerations scope next node) ts rest
  | _, ts, rest => enumTexts ts = enumTexts rest

theorem SpellsConstructor.no_enumerations {constructor : List Node} (spells : SpellsConstructor constructor us)
    (scope next : Nat) (children : List Node) :
    ∃ later, enumerationsAll scope next (constructor ++ children) = enumerationsAll scope later children := by
  cases spells with
  | none => exact ⟨next, rfl⟩
  | parameters => exact ⟨_, rfl⟩

theorem Declares.enumerates {endings : Endings} {phrase : NodePhrase} (declares : Declares endings phrase ts rest) :
    Enumerates endings phrase ts rest := by
  induction declares with
  | @none place rest =>
    cases place with
    | scope => exact fun _ _ => .none rfl
    | getter => rfl
  | @more place node nodes ts mid rest _ _ first others =>
    cases place with
    | scope => exact fun scope next => (first scope next).append (others scope _)
    | getter => exact Eq.trans first others
  | @enumeration keyword id opening closing members ts rest enum named opens spells closes =>
    intro scope next
    refine ⟨[keyword :: id :: opening :: ts ++ closing :: rest], ?_,
      .cons ⟨rest, .enumeration enum named opens spells closes⟩ .nil⟩
    simp only [List.cons_append]
    rw [enumTexts_keyword enum, enumTexts_other named, enumTexts_other opens, enumTexts_phrased spells.phrased,
      enumTexts_other closes]
    rfl
  | bodiless introduces named generic constructs ends =>
    intro scope next
    obtain ⟨later, same⟩ := constructs.no_enumerations next (next + 1) []
    rw [List.append_nil] at same
    rw [enumerations, same]
    refine .none ?_
    simp only [List.cons_append, List.append_assoc]
    rw [enumTexts_other introduces, enumTexts_other named, enumTexts_phrased generic.phrased,
      enumTexts_phrased constructs.phrased, enumTexts_other ends]
  | classDecl introduces named generic constructs opens _ closes body =>
    intro scope next
    obtain ⟨later, same⟩ := constructs.no_enumerations next (next + 1) _
    rw [enumerations, same]
    obtain ⟨texts, split, declared⟩ := body next later
    refine ⟨texts, ?_, declared⟩
    simp only [List.cons_append, List.append_assoc]
    rw [enumTexts_other introduces, enumTexts_other named, enumTexts_phrased generic.phrased,
      enumTexts_phrased constructs.phrased, enumTexts_other opens, split, enumTexts_other closes]
  | @binding place keyword id _ _ _ _ ts us rest introduces named annotates _ ending =>
    have none := calc enumTexts (keyword :: id :: ts ++ us)
      _ = enumTexts (id :: ts ++ us) := enumTexts_other rfl (noEnum_of_phrase introduces.phrased)
      _ = enumTexts (ts ++ us) := enumTexts_other named
      _ = enumTexts us := enumTexts_phrased annotates.phrased
      _ = enumTexts rest := ending
    cases place with
    | scope => exact fun scope next => .none none
    | getter => exact none
  | ret returns derives ends =>
    exact (enumTexts_other returns).trans (derives.noEnum.trans (enumTexts_other ends))
  | value assigns derives ends =>
    exact (enumTexts_other assigns).trans (derives.noEnum.trans (enumTexts_other ends))
  | computed gets assigns derives ends =>
    exact (enumTexts_other gets).trans
      ((enumTexts_other assigns).trans (derives.noEnum.trans (enumTexts_other ends)))
  | getter gets opens _ closes body =>
    exact (enumTexts_other gets).trans ((enumTexts_other opens).trans (Eq.trans body (enumTexts_other closes)))
  | typed ends => exact enumTexts_other ends
  | unended _ => rfl

end Frontend.Grammar
