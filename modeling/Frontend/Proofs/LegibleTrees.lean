import Frontend.Proofs.DoubleText
import Frontend.Proofs.ProgramReading
import Frontend.Proofs.TokenValues
import Frontend.Proofs.WrittenForm

-- What the names and the numbers of a written tree are made of: names are runs of letters and digits, and a
-- number is one that digits can write.

namespace Frontend

open Text

def Text.Word (text : String) : Prop := text ≠ "" ∧ ∀ c ∈ text.toList, isAlphanumeric c = true

structure Token.Legible (t : Token) : Prop where
  name : t.kind = .identifier → Word t.text
  number : ∀ d, t.value = some (.double d) → d.Unsigned

theorem wordValue_no_double (kind : TokenKind) (d : Double) : wordValue? kind ≠ some (.double d) := by
  cases kind <;> nofun

theorem Token.Made.legible {t : Token} (made : t.Made) : t.Legible := by
  cases made with
  | symbol found =>
    have symbol := symbol_kind found
    refine ⟨fun same => ?_, fun d same => (by cases same)⟩
    cases same
    exact absurd symbol (by decide)
  | word first others =>
    refine ⟨fun _ => ⟨by simp [Token.ofChars, String.ofList_eq_empty_iff, clamped_cons], ?_⟩, fun d same =>
      absurd same (wordValue_no_double _ d)⟩
    rw [Token.ofChars, String.toList_ofList]
    intro c within
    rcases List.mem_cons.1 (mem_of_mem_clamped within) with rfl | later
    · rw [isAlphanumeric, first, Bool.true_or]
    · exact others c later
  | integer _ => exact ⟨fun same => (by cases same), fun d same => (by cases same)⟩
  | double =>
    refine ⟨fun same => (by cases same), fun d same => ?_⟩
    cases same
    exact Double.ofDigits_unsigned _ _
  | text => exact ⟨fun same => (by cases same), fun d same => (by cases same)⟩
  | mark listed =>
    refine ⟨fun same => ?_, fun d same => (by cases same)⟩
    cases same
    exact absurd listed (by decide)

namespace Surface

-- A name, and behind it type arguments or none.
inductive LegibleType : Expr → Prop where
  | plain {name : String} : Word name → LegibleType (.plain name)
  | applied {name : String} {args : List Expr} : Word name → args ≠ [] → (∀ arg ∈ args, LegibleType arg) →
      LegibleType (.ident name (some args))

inductive Expr.Legible : Expr → Prop where
  | literal {value : Value} : (∀ d, value = .double d → d.Unsigned) → Legible (.literal value)
  | name {e : Expr} : LegibleType e → Legible e
  | unary {op : UnaryOperator} {e : Expr} : Legible e → Legible (.unary op e)
  | binary {op : BinaryOperator} {lhs rhs : Expr} : Legible lhs → Legible rhs →
      Legible (.binary op lhs rhs)
  | grouping {e : Expr} : Legible e → Legible (.grouping e)
  | call {callee : Expr} {args : List Expr} : Legible callee → (∀ arg ∈ args, Legible arg) →
      Legible (.call callee args)
  | interpolation {parts : List Expr} : (∀ part ∈ parts, Legible part) →
      Legible (.interpolation parts)

-- The name of a function is made up, but never holds what its list of parameters begins with.
inductive Node.Legible : Node → Prop where
  | enumeration {name : String} {members : List Node} : Word name → (∀ node ∈ members, Legible node) →
      Legible (.enumeration name members)
  | classDecl {name : String} {generics : Option (List String)} {children : List Node} : Word name →
      (∀ names ∈ generics, names ≠ [] ∧ ∀ name ∈ names, Word name) →
      (∀ node ∈ children, Legible node) → Legible (.classDecl name generics children)
  | function {name : String} {returnType : Option Expr} {parameters : List Parameter}
      {internal : Bool} {children : List Node} : '(' ∉ name.toList → '\n' ∉ name.toList →
      (∀ ty ∈ returnType, LegibleType ty) → (∀ p ∈ parameters, Word p.name ∧ LegibleType p.ty) →
      (∀ node ∈ children, Legible node) →
      Legible (.function ⟨false, name, returnType, parameters, internal, children⟩)
  | binding {modifiers : Modifiers} {name : String} {ty init : Option Expr}
      {getter : Option FunctionDecl} : Word name → (∀ written ∈ ty, LegibleType written) →
      (∀ e ∈ init, e.Legible) → (∀ decl ∈ getter, Legible (.function decl)) →
      Legible (.binding ⟨modifiers, name, ty, init, getter⟩)
  | ret {value : Expr} : value.Legible → Legible (.ret value)

end Surface

namespace Grammar

open Surface

variable {ts rest : List Token}

def LegibleTokens (ts : List Token) : Prop := ∀ t ∈ ts, t.Legible

theorem LegibleTokens.cons {t : Token} {ts : List Token} :
    LegibleTokens (t :: ts) ↔ t.Legible ∧ LegibleTokens ts :=
  List.forall_mem_cons

theorem LegibleTokens.append {ts us : List Token} :
    LegibleTokens (ts ++ us) ↔ LegibleTokens ts ∧ LegibleTokens us :=
  List.forall_mem_append

def TypePhrase.Legible : TypePhrase → Prop
  | .type e => LegibleType e
  | .types es | .closed es => es ≠ [] ∧ ∀ e ∈ es, LegibleType e

theorem Spells.legible {phrase : TypePhrase} (spells : Spells phrase ts) (legible : LegibleTokens ts) :
    phrase.Legible := by
  induction spells with
  | name named => exact .plain ((LegibleTokens.cons.1 legible).1.name named)
  | applied named _ ih =>
    obtain ⟨id, list⟩ := LegibleTokens.cons.1 legible
    exact .applied (id.name named) (ih list).1 (ih list).2
  | one _ ih => exact ⟨List.cons_ne_nil _ _, List.forall_mem_singleton.2 (ih legible)⟩
  | more _ _ _ first others =>
    obtain ⟨here, behind⟩ := LegibleTokens.append.1 legible
    exact ⟨List.cons_ne_nil _ _,
      List.forall_mem_cons.2 ⟨first here, (others (LegibleTokens.cons.1 behind).2).2⟩⟩
  | closed _ _ _ ih => exact ih (LegibleTokens.cons.1 (LegibleTokens.append.1 legible).1).2

theorem text_legible (text : String) : (Expr.literal (.string text)).Legible := .literal nofun

theorem literalText_legible (text : String) : ∀ part ∈ literalText text, part.Legible := by
  intro part within
  unfold literalText at within
  split at within
  · cases within
  · rw [List.mem_singleton.1 within]
    exact text_legible text

def ExprPhrase.Legible : ExprPhrase → Prop
  | .infixed _ e | .prefixed e | .ranged e | .postfixed e | .primary e => e.Legible
  | .items es | .pieces es => ∀ e ∈ es, e.Legible

theorem legible_pieces {text : String} {e : Expr} {parts : List Expr} (first : e.Legible)
    (others : ∀ part ∈ parts, part.Legible) : ∀ part ∈ literalText text ++ e :: parts, part.Legible :=
  List.forall_mem_append.2 ⟨literalText_legible text, List.forall_mem_cons.2 ⟨first, others⟩⟩

theorem plain_legible {name : String} (word : Word name) : (Expr.plain name).Legible := .name (.plain word)

-- The names that short forms stand for.
theorem known_words : Word "Range" ∧ Word "List" ∧ Word "Get" := by
  have word {text : String} (some : text ≠ "") (all : text.toList.all isAlphanumeric = true) : Word text :=
    ⟨some, List.all_eq_true.1 all⟩
  exact ⟨word (by decide) (by decide +kernel), word (by decide) (by decide +kernel),
    word (by decide) (by decide +kernel)⟩

-- A phrase of legible tokens is legible, and so is what is left behind it.
theorem Derives.legible {phrase : ExprPhrase} (derives : Derives phrase ts rest)
    (legible : LegibleTokens ts) : phrase.Legible ∧ LegibleTokens rest := by
  obtain ⟨rangeWord, listWord, getWord⟩ := known_words
  induction derives with
  | operand _ ih | unprefixed _ ih | single _ ih | plain _ ih => exact ih legible
  | binary _ _ _ _ left right =>
    obtain ⟨lhs, behind⟩ := left legible
    obtain ⟨rhs, rest⟩ := right (LegibleTokens.cons.1 behind).2
    exact ⟨.binary lhs rhs, rest⟩
  | not _ _ ih | negate _ _ ih =>
    obtain ⟨operand, rest⟩ := ih (LegibleTokens.cons.1 legible).2
    exact ⟨.unary operand, rest⟩
  | range _ _ _ left right =>
    obtain ⟨first, behind⟩ := left legible
    obtain ⟨last, rest⟩ := right (LegibleTokens.cons.1 behind).2
    exact ⟨.call (plain_legible rangeWord)
      (List.forall_mem_cons.2 ⟨first, List.forall_mem_singleton.2 last⟩), rest⟩
  | member _ _ named ih =>
    obtain ⟨object, behind⟩ := ih legible
    obtain ⟨id, rest⟩ := LegibleTokens.cons.1 (LegibleTokens.cons.1 behind).2
    exact ⟨.binary object (plain_legible (id.name named)), rest⟩
  | call _ _ _ _ ih items =>
    obtain ⟨callee, behind⟩ := ih legible
    obtain ⟨args, rest⟩ := items (LegibleTokens.cons.1 behind).2
    exact ⟨.call callee args, (LegibleTokens.cons.1 rest).2⟩
  | element _ _ _ _ ih items =>
    obtain ⟨object, behind⟩ := ih legible
    obtain ⟨args, rest⟩ := items (LegibleTokens.cons.1 behind).2
    exact ⟨.call (.binary object (plain_legible getWord)) args, (LegibleTokens.cons.1 rest).2⟩
  | literal _ worth =>
    obtain ⟨number, rest⟩ := LegibleTokens.cons.1 legible
    exact ⟨.literal fun d same => number.number d (same ▸ worth), rest⟩
  | name named _ =>
    obtain ⟨id, rest⟩ := LegibleTokens.cons.1 legible
    exact ⟨plain_legible (id.name named), rest⟩
  | generic named spells =>
    obtain ⟨phrase, rest⟩ := LegibleTokens.append.1 legible
    obtain ⟨id, list⟩ := LegibleTokens.cons.1 phrase
    obtain ⟨some, types⟩ := spells.legible list
    exact ⟨.name (.applied (id.name named) some types), rest⟩
  | group _ _ _ ih =>
    obtain ⟨inner, rest⟩ := ih (LegibleTokens.cons.1 legible).2
    exact ⟨.grouping inner, (LegibleTokens.cons.1 rest).2⟩
  | list _ _ _ ih =>
    obtain ⟨items, rest⟩ := ih (LegibleTokens.cons.1 legible).2
    exact ⟨.call (plain_legible listWord) items, (LegibleTokens.cons.1 rest).2⟩
  | string _ _ _ =>
    have behind := LegibleTokens.cons.1 (LegibleTokens.cons.1 legible).2
    exact ⟨text_legible _, (LegibleTokens.cons.1 behind.2).2⟩
  | interpolation _ _ _ _ _ ih pieces =>
    obtain ⟨first, behind⟩ := ih (LegibleTokens.cons.1 (LegibleTokens.cons.1 legible).2).2
    obtain ⟨others, rest⟩ := pieces (LegibleTokens.cons.1 behind).2
    exact ⟨.interpolation (legible_pieces first others), rest⟩
  | none => exact ⟨List.forall_mem_nil _, legible⟩
  | last _ ih =>
    obtain ⟨item, rest⟩ := ih legible
    exact ⟨List.forall_mem_singleton.2 item, rest⟩
  | more _ _ _ ih items =>
    obtain ⟨first, behind⟩ := ih legible
    obtain ⟨others, rest⟩ := items (LegibleTokens.cons.1 behind).2
    exact ⟨List.forall_mem_cons.2 ⟨first, others⟩, rest⟩
  | textEnd _ _ => exact ⟨literalText_legible _, (LegibleTokens.cons.1 (LegibleTokens.cons.1 legible).2).2⟩
  | segment _ _ _ _ ih pieces =>
    obtain ⟨first, behind⟩ := ih (LegibleTokens.cons.1 legible).2
    obtain ⟨others, rest⟩ := pieces (LegibleTokens.cons.1 behind).2
    exact ⟨legible_pieces first others, rest⟩

theorem SpellsNames.legible {names : List String} (spells : SpellsNames names ts)
    (legible : LegibleTokens ts) : names ≠ [] ∧ ∀ name ∈ names, Word name := by
  induction spells with
  | one named =>
    exact ⟨List.cons_ne_nil _ _, List.forall_mem_singleton.2 ((LegibleTokens.cons.1 legible).1.name named)⟩
  | more named _ _ ih =>
    obtain ⟨id, behind⟩ := LegibleTokens.cons.1 legible
    have others := ih (LegibleTokens.cons.1 behind).2
    exact ⟨List.cons_ne_nil _ _, List.forall_mem_cons.2 ⟨id.name named, others.2⟩⟩

theorem SpellsGenerics.legible {generics : Option (List String)} (spells : SpellsGenerics generics ts)
    (legible : LegibleTokens ts) : ∀ names ∈ generics, names ≠ [] ∧ ∀ name ∈ names, Word name := by
  cases spells with
  | none => exact nofun
  | names _ spells _ =>
    intro _ same
    cases same
    exact spells.legible (LegibleTokens.append.1 (LegibleTokens.cons.1 legible).2).1

theorem SpellsAnnotation.legible {ty : Option Expr} (spells : SpellsAnnotation ty ts)
    (legible : LegibleTokens ts) : ∀ written ∈ ty, LegibleType written := by
  cases spells with
  | none => exact nofun
  | type _ spells =>
    intro _ same
    cases same
    exact spells.legible (LegibleTokens.cons.1 legible).2

theorem SpellsParameters.legible {ps : List Parameter} (spells : SpellsParameters ps ts)
    (legible : LegibleTokens ts) : ∀ p ∈ ps, Word p.name ∧ LegibleType p.ty := by
  have one {p : Parameter} {ts : List Token} (spells : SpellsParameter p ts)
      (legible : LegibleTokens ts) : Word p.name ∧ LegibleType p.ty := by
    cases spells with
    | typed _ named _ type =>
      obtain ⟨id, behind⟩ := LegibleTokens.cons.1 (LegibleTokens.cons.1 legible).2
      exact ⟨id.name named, type.legible (LegibleTokens.cons.1 behind).2⟩
  induction spells with
  | none => exact List.forall_mem_nil _
  | last first => exact List.forall_mem_singleton.2 (one first legible)
  | more first _ _ ih =>
    obtain ⟨here, behind⟩ := LegibleTokens.append.1 legible
    exact List.forall_mem_cons.2 ⟨one first here, ih (LegibleTokens.cons.1 behind).2⟩

theorem SpellsConstructor.legible {constructor : List Node} (spells : SpellsConstructor constructor ts)
    (legible : LegibleTokens ts) : ∀ node ∈ constructor, node.Legible := by
  cases spells with
  | none => exact List.forall_mem_nil _
  | parameters _ parameters _ =>
    have tokens := (LegibleTokens.append.1 (LegibleTokens.cons.1 legible).2).1
    exact List.forall_mem_singleton.2
      (.function (by decide) (by decide) nofun (parameters.legible tokens) (List.forall_mem_nil _))

theorem SpellsMembers.legible {name : String} (word : Word name) {next : Option Int64}
    {members : List Node} (spells : SpellsMembers name next members ts) (legible : LegibleTokens ts) :
    ∀ node ∈ members, node.Legible := by
  have one {member : String} {value : Int64} (named : Word member) :
      (Node.binding (memberDecl name member value)).Legible := by
    refine .binding named ?_ ?_ nofun
    · intro _ same
      cases same
      exact .plain word
    · intro _ same
      cases same
      exact .literal nofun
  induction spells with
  | none => exact List.forall_mem_nil _
  | last named _ _ =>
    exact List.forall_mem_singleton.2 (one ((LegibleTokens.cons.1 legible).1.name named))
  | more named _ _ _ _ ih =>
    obtain ⟨here, behind⟩ := LegibleTokens.append.1 legible
    exact List.forall_mem_cons.2
      ⟨one ((LegibleTokens.cons.1 here).1.name named), ih (LegibleTokens.cons.1 behind).2⟩

-- The type of a variable and its name stand before its ending.
def NodePhrase.Legible : NodePhrase → Prop
  | .nodes _ all => ∀ child ∈ all, child.Legible
  | .node _ one => one.Legible
  | .ending name ty init getter => Word name → (∀ written ∈ ty, LegibleType written) →
    (∀ e ∈ init, e.Legible) ∧ ∀ decl ∈ getter, (Node.function decl).Legible

theorem getterName_legible {name : String} (word : Word name) :
    '(' ∉ ("get_" ++ name).toList ∧ '\n' ∉ ("get_" ++ name).toList := by
  have other {c : Char} (front : c ∉ "get_".toList) (no : isAlphanumeric c = false) :
      c ∉ ("get_" ++ name).toList := by
    rw [String.toList_append, List.mem_append, not_or]
    exact ⟨front, fun within => Bool.false_ne_true (no.symm.trans (word.2 c within))⟩
  exact ⟨other (by decide) (by decide +kernel), other (by decide) (by decide +kernel)⟩

theorem Declares.legible {endings : Endings} {phrase : NodePhrase}
    (declares : Declares endings phrase ts rest) (legible : LegibleTokens ts) :
    phrase.Legible ∧ LegibleTokens rest := by
  induction declares with
  | none => exact ⟨List.forall_mem_nil _, legible⟩
  | more _ _ first others =>
    obtain ⟨node, behind⟩ := first legible
    obtain ⟨nodes, rest⟩ := others behind
    exact ⟨List.forall_mem_cons.2 ⟨node, nodes⟩, rest⟩
  | enumeration _ named _ spells _ =>
    obtain ⟨front, rest⟩ := LegibleTokens.append.1 legible
    obtain ⟨id, members⟩ := LegibleTokens.cons.1 (LegibleTokens.cons.1 front).2
    have word := id.name named
    exact ⟨.enumeration word (spells.legible word (LegibleTokens.cons.1 members).2),
      (LegibleTokens.cons.1 rest).2⟩
  | bodiless _ named generics constructs _ =>
    obtain ⟨front, rest⟩ := LegibleTokens.append.1 legible
    obtain ⟨head, parameters⟩ := LegibleTokens.append.1 front
    obtain ⟨id, list⟩ := LegibleTokens.cons.1 (LegibleTokens.cons.1 head).2
    exact ⟨.classDecl (id.name named) (generics.legible list) (constructs.legible parameters),
      (LegibleTokens.cons.1 rest).2⟩
  | classDecl _ named generics constructs _ _ _ ih =>
    obtain ⟨front, body⟩ := LegibleTokens.append.1 legible
    obtain ⟨head, parameters⟩ := LegibleTokens.append.1 front
    obtain ⟨id, list⟩ := LegibleTokens.cons.1 (LegibleTokens.cons.1 head).2
    obtain ⟨children, rest⟩ := ih (LegibleTokens.cons.1 body).2
    exact ⟨.classDecl (id.name named) (generics.legible list)
      (List.forall_mem_append.2 ⟨constructs.legible parameters, children⟩), (LegibleTokens.cons.1 rest).2⟩
  | binding _ named annotates _ ih =>
    obtain ⟨front, ending⟩ := LegibleTokens.append.1 legible
    obtain ⟨id, annotation⟩ := LegibleTokens.cons.1 (LegibleTokens.cons.1 front).2
    obtain ⟨given, rest⟩ := ih ending
    have types := annotates.legible annotation
    obtain ⟨init, getter⟩ := given (id.name named) types
    exact ⟨.binding (id.name named) types init getter, rest⟩
  | ret _ derives _ =>
    obtain ⟨value, behind⟩ := derives.legible (LegibleTokens.cons.1 legible).2
    exact ⟨.ret value, (LegibleTokens.cons.1 behind).2⟩
  | value _ derives _ =>
    obtain ⟨value, behind⟩ := derives.legible (LegibleTokens.cons.1 legible).2
    exact ⟨fun _ _ => ⟨fun _ same => by cases same; exact value, nofun⟩, (LegibleTokens.cons.1 behind).2⟩
  | computed _ _ derives _ =>
    obtain ⟨value, behind⟩ := derives.legible (LegibleTokens.cons.1 (LegibleTokens.cons.1 legible).2).2
    refine ⟨fun word types => ⟨nofun, fun _ same => ?_⟩, (LegibleTokens.cons.1 behind).2⟩
    cases same
    obtain ⟨opening, newline⟩ := getterName_legible word
    exact .function opening newline types (List.forall_mem_nil _)
      (List.forall_mem_singleton.2 (.ret value))
  | getter _ _ _ _ ih =>
    obtain ⟨body, behind⟩ := ih (LegibleTokens.cons.1 (LegibleTokens.cons.1 legible).2).2
    refine ⟨fun word types => ⟨nofun, fun _ same => ?_⟩, (LegibleTokens.cons.1 behind).2⟩
    cases same
    obtain ⟨opening, newline⟩ := getterName_legible word
    exact .function opening newline types (List.forall_mem_nil _) body
  | typed _ => exact ⟨fun _ _ => ⟨nofun, nofun⟩, (LegibleTokens.cons.1 legible).2⟩
  | unended _ => exact ⟨fun _ _ => ⟨nofun, nofun⟩, legible⟩

end Grammar

open Grammar

theorem readProgram_legible {source : String} {node : Surface.Node}
    (read : readProgram source = .ok node) :
    ∃ children, node = .root children ∧ ∀ child ∈ children, child.Legible := by
  obtain ⟨tokens, children, listed, rfl, declares⟩ := readProgram_declares read
  have legible : LegibleTokens tokens := fun t within => (tokensOf_made listed t within).legible
  exact ⟨children, rfl, (declares.legible legible).1⟩

theorem readExpr_legible {source : String} {e : Surface.Expr} (read : readExpr source = .ok e) :
    e.Legible := by
  obtain ⟨o, -, -, listed⟩ := runOn_taken (wholeExpr_observed source _) (wholeExpr_goesWith source _) read
  obtain ⟨s, read⟩ := (readExpr_feed listed).1 read
  obtain ⟨_, -, derives, -⟩ := wholeExpr_gives _ e s read
  exact (derives.legible fun t within => (tokensOf_made listed t within).legible).1

end Frontend
