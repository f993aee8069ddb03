import Frontend.Proofs.ExprTail
import Frontend.Proofs.NodeGrammar

-- The tokens of the phrases that contain no expression.  None of them opens a text or starts a declaration of
-- its own.

namespace Frontend.Grammar

open Surface

variable {ts : List Token} {t : Token} {kind : TokenKind}

def phraseKinds : List TokenKind :=
  typeKinds ++ [.varKeyword, .valKeyword, .colon, .leftParen, .rightParen, .assign, .minus, .integer]

def Phrased (ts : List Token) : Prop := ∀ t ∈ ts, t.kind ∈ phraseKinds

namespace Phrased

theorem nil : Phrased [] := List.forall_mem_nil _

theorem cons (same : t.kind = kind) (others : Phrased ts) (within : kind ∈ phraseKinds := by decide) :
    Phrased (t :: ts) :=
  List.forall_mem_cons.2 ⟨same ▸ within, others⟩

theorem append {us : List Token} (first : Phrased ts) (others : Phrased us) : Phrased (ts ++ us) :=
  List.forall_mem_append.2 ⟨first, others⟩

end Phrased

open Phrased

theorem Spells.phrased {phrase : TypePhrase} (spells : Spells phrase ts) : Phrased ts :=
  fun t within => List.mem_append_left _ (spells.kinds t within)

theorem SpellsNames.phrased {names : List String} (spells : SpellsNames names ts) : Phrased ts := by
  induction spells with
  | one named => exact cons named nil
  | more named separates _ others => exact cons named (cons separates others)

theorem SpellsGenerics.phrased {generics : Option (List String)} (spells : SpellsGenerics generics ts) :
    Phrased ts := by
  cases spells with
  | none => exact nil
  | names opens names closes => exact cons opens (names.phrased.append (cons closes nil))

theorem Introduces.phrased {modifiers : Modifiers} (introduces : Introduces kind modifiers) :
    kind ∈ phraseKinds := by
  cases introduces <;> decide

theorem SpellsParameter.phrased {p : Parameter} (spells : SpellsParameter p ts) : Phrased ts := by
  cases spells with
  | typed introduces named colon type =>
    exact cons rfl (cons named (cons colon type.phrased)) introduces.phrased

theorem SpellsParameters.phrased {ps : List Parameter} (spells : SpellsParameters ps ts) : Phrased ts := by
  induction spells with
  | none => exact nil
  | last first => exact first.phrased
  | more first separates _ others => exact first.phrased.append (cons separates others)

theorem SpellsConstructor.phrased {constructor : List Node} (spells : SpellsConstructor constructor ts) :
    Phrased ts := by
  cases spells with
  | none => exact nil
  | parameters opens list closes => exact cons opens (list.phrased.append (cons closes nil))

theorem SpellsAnnotation.phrased {ty : Option Expr} (spells : SpellsAnnotation ty ts) : Phrased ts := by
  cases spells with
  | none => exact nil
  | type colon type => exact cons colon type.phrased

theorem SpellsValue.phrased {given : Option Int64} (spells : SpellsValue given ts) : Phrased ts := by
  cases spells with
  | none => exact nil
  | plain assigns number _ => exact cons assigns (cons number nil)
  | negative assigns minus number _ => exact cons assigns (cons minus (cons number nil))

theorem SpellsMembers.phrased {enumName : String} {next : Option Int64} {members : List Node}
    (spells : SpellsMembers enumName next members ts) : Phrased ts := by
  induction spells with
  | none => exact nil
  | last named value _ => exact cons named value.phrased
  | more named value _ separates _ others => exact (cons named value.phrased).append (cons separates others)

end Frontend.Grammar
