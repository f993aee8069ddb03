import Frontend.Proofs.DeclaredEntries
import Frontend.Proofs.EnumOverflow

-- The values of the members of enums.  They follow one rule where a source is read and where the declarations
-- are entered.  So it makes no difference to the scope tree if a value that was counted is taken out of a
-- declaration again.

namespace Frontend

open Scope (Draft Entry Ref Tree TypedExpr)
open Scope.Tree
open Surface (BindingDecl Node)

namespace Typing

open Grammar (Member memberDecl enumerations enumerationsAll givenValues memberNodes)

variable {erased : Nat → Bool} {t : Tree} {scope next n k : Nat} {counter : Option Int64}

-- The members without the values of those that are `erased`, where `next` is the number of the first one.
def dropMembers (erased : Nat → Bool) : Nat → List Node → List Node
  | _, [] => []
  | next, .binding decl :: others =>
    .binding (if erased next then { decl with init := none } else decl) :: dropMembers erased (next + 1) others
  | next, other :: others => other :: dropMembers erased next others

mutual

-- The node without the values of the members of enums that are `erased`, told by the numbers of their entries.
def dropValues (erased : Nat → Bool) (scope next : Nat) : Node → Node
  | .enumeration name members => .enumeration name (dropMembers erased (next + 1) members)
  | .classDecl name generics children => .classDecl name generics (dropAll erased next (next + 1) children)
  | .root children => .root (dropAll erased scope next children)
  | node => node

def dropAll (erased : Nat → Bool) (scope next : Nat) : List Node → List Node
  | [] => []
  | node :: nodes =>
    dropValues erased scope next node :: dropAll erased scope (next + (nodeSites scope next node).length) nodes

end

theorem declareMembers_member {decl : BindingDecl} {v : Int64} {others : List Node}
    (valued : memberValue decl counter = .ok v) : declareMembers t n counter (.binding decl :: others) =
      declareMembers (t.push n (memberDraft (.declared n) decl v)) n (successor? v) others := by
  rw [declareMembers, valued]
  rfl

-- The counter comes to the same values without those that were counted.
theorem declareMembers_drop {enumName : String} {members : List Member} {values : List Int64}
    (counts : Counts counter (givenValues members) values)
    (counted : ∀ j member, members[j]? = some member → erased (k + j) = true → member.given = none) :
    declareMembers t n counter (dropMembers erased k (memberNodes enumName members values)) =
      declareMembers t n counter (memberNodes enumName members values) := by
  induction members generalizing counter values t k with
  | nil => rfl
  | cons member members ih =>
    have later : ∀ j other, members[j]? = some other → erased (k + 1 + j) = true → other.given = none := by
      intro j other is drops
      exact counted (j + 1) other is (by rw [← drops, Nat.add_assoc, Nat.add_comm 1])
    have first : erased k = true → member.given = none := counted 0 member rfl
    obtain ⟨id, given⟩ := member
    cases counts with
    | @explicit _ v _ values counts =>
      have stays : erased k = false := Bool.eq_false_iff.2 fun drops => nomatch first drops
      simp only [memberNodes, List.zipWith_cons_cons, memberDecl, dropMembers, stays, Bool.false_eq_true, if_false]
      rw [declareMembers_member rfl, declareMembers_member rfl]
      exact ih counts later
    | @automatic v _ values counts =>
      simp only [memberNodes, List.zipWith_cons_cons, memberDecl, dropMembers]
      split
      · rw [declareMembers_member rfl, declareMembers_member rfl]
        exact ih counts later
      · rw [declareMembers_member rfl, declareMembers_member rfl]
        exact ih counts later

-- Where values of the members of the enum are erased, they were counted.
def Spared (erased : Nat → Bool) (e : Nat × Node) : Prop :=
  ∃ name members values, e.2 = .enumeration name (memberNodes name members values) ∧
    Counts (some 0) (givenValues members) values ∧
    ∀ j member, members[j]? = some member → erased (e.1 + 1 + j) = true → member.given = none

mutual

theorem declare_drop (erased : Nat → Bool) : ∀ (node : Node) (t : Tree) (scope : Nat),
    (∀ e ∈ enumerations scope t.size node, Spared erased e) →
    declare t scope (dropValues erased scope t.size node) = declare t scope node
  | .enumeration _ _, t, scope, spared => by
    obtain ⟨_, members, values, same, counts, counted⟩ := spared _ (List.mem_singleton_self _)
    cases same
    rw [dropValues, declare, declare]
    exact declareMembers_drop counts counted
  | .classDecl name generics children, t, scope, spared => by
    rw [dropValues, declare, declare]
    have inside := declareAll_drop erased children (t.push scope ⟨name, .classDecl (generics.getD []), false⟩) t.size
    rw [size_push] at inside
    exact inside spared
  | .root _, _, _, _ => rfl
  | .binding _, _, _, _ => rfl
  | .function _, _, _, _ => rfl
  | .ret _, _, _, _ => rfl

theorem declareAll_drop (erased : Nat → Bool) : ∀ (nodes : List Node) (t : Tree) (scope : Nat),
    (∀ e ∈ enumerationsAll scope t.size nodes, Spared erased e) →
    declareAll t scope (dropAll erased scope t.size nodes) = declareAll t scope nodes
  | [], _, _, _ => rfl
  | node :: nodes, t, scope, spared => by
    obtain ⟨first, others⟩ := List.forall_mem_append.1 spared
    rw [dropAll, declareAll, declareAll, declare_drop erased node t scope first]
    cases declared : declare t scope node with
    | error e => rfl
    | ok t' =>
      have size : t'.size = t.size + (nodeSites scope t.size node).length := (declare_enters node declared).size
      rw [← size] at others ⊢
      exact declareAll_drop erased nodes t' scope others

end

mutual

-- The declarations in an enum are among those of the node that it stands in.
theorem enumerations_sites (scope next : Nat) : ∀ (node : Node), ∀ e ∈ enumerations scope next node,
    ∃ outer, nodeSites outer e.1 e.2 <:+: nodeSites scope next node
  | .enumeration _ _, e, among => by
    obtain rfl := List.mem_singleton.1 among
    exact ⟨scope, List.infix_rfl⟩
  | .classDecl _ _ children, e, among => by
    obtain ⟨outer, inside⟩ := enumerationsAll_sites next (next + 1) children e among
    exact ⟨outer, inside.trans (List.suffix_cons _ _).isInfix⟩
  | .root children, e, among => enumerationsAll_sites scope next children e among
  | .binding _, _, among => nomatch among
  | .function _, _, among => nomatch among
  | .ret _, _, among => nomatch among

theorem enumerationsAll_sites (scope next : Nat) : ∀ (nodes : List Node), ∀ e ∈ enumerationsAll scope next nodes,
    ∃ outer, nodeSites outer e.1 e.2 <:+: sites scope next nodes
  | node :: nodes, e, among => by
    rcases List.mem_append.1 among with first | others
    · obtain ⟨outer, inside⟩ := enumerations_sites scope next node e first
      exact ⟨outer, inside.trans (List.prefix_append _ _).isInfix⟩
    · obtain ⟨outer, inside⟩ := enumerationsAll_sites scope _ nodes e others
      exact ⟨outer, inside.trans (List.suffix_append _ _).isInfix⟩

end

theorem mem_memberSites {enumName : String} {members : List Member} {values : List Int64} {member : Member}
    {v : Int64} {j : Nat} (is : members[j]? = some member) (valued : values[j]? = some v) :
    ⟨next + j, scope, .member (memberDecl enumName member.id.text v)⟩ ∈
      memberSites scope next (memberNodes enumName members values) := by
  induction members generalizing values j next with
  | nil => cases is
  | cons first members ih =>
    cases values with
    | nil => cases valued
    | cons value values =>
      cases j with
      | zero =>
        cases is
        cases valued
        exact List.mem_cons_self
      | succ j =>
        have later := @ih (next + 1) values j is valued
        rw [Nat.add_assoc, Nat.add_comm 1] at later
        exact List.mem_cons_of_mem _ later

end Typing

open Grammar Scanner Typing TokenSource

-- An enum of a source: the number of its entry, its name, its members as they are written, and their values.
structure Enumeration where
  number : Nat
  name : String
  members : List Member
  values : List Int64

namespace Enumeration

def node (e : Enumeration) : Node := .enumeration e.name (memberNodes e.name e.members e.values)

-- The tree has an entry for the enum, and behind it one for each of the members, with its value.
structure Entered (e : Enumeration) (t : Tree) : Prop where
  enum : t.draft? e.number = some ⟨e.name, .enumeration, false⟩
  member : ∀ j member value, e.members[j]? = some member → e.values[j]? = some value →
    t.draft? (e.number + 1 + j) = some ⟨member.id.text, .binding .enumMember (some (.declared e.number))
      (some (.literal (.integer value) Ref.integer)), false⟩ ∧
    t.parent (.declared (e.number + 1 + j)) = some (.declared e.number)

theorem entered {e : Enumeration} {written : Node} {t : Tree} (typed : typeProgram written = .ok t)
    (among : (e.number, e.node) ∈ enumerations 0 1 written) : e.Entered t := by
  obtain ⟨outer, inside⟩ := enumerations_sites 0 1 written _ among
  have described := (typeProgram_mirrors typed).described
  constructor
  · obtain ⟨⟨_, kind, _⟩, is, -, rfl, rfl, describes⟩ := described _ (inside.subset List.mem_cons_self)
    cases kind with
    | enumeration => exact is
    | _ => exact describes.elim
  · intro j member value here valued
    have listed := inside.subset (List.mem_cons_of_mem _ (mem_memberSites here valued))
    obtain ⟨⟨_, kind, _⟩, is, stands, rfl, rfl, describes⟩ := described _ listed
    cases kind with
    | binding modifiers ty init =>
      obtain ⟨rfl, rfl, _, v, same, rfl⟩ := describes
      cases same
      exact ⟨is, stands⟩
    | _ => exact describes.elim

end Enumeration

section Found

variable {tokens us behind : List Token}

-- The enum at a keyword, with its members as they are written and the values that they are read with.
theorem enum_found {n : Nat × Node} (declares : Declares .required (.node .scope n.2) us behind)
    (among : us ∈ enumTexts tokens) (spelled : ∀ t ∈ tokens, t.Spelled) : ∃ e : Enumeration, n = (e.number, e.node) ∧
      (∃ text behind, us = text ++ behind ∧ WritesEnum e.name e.members text) ∧
      Counts (some 0) (givenValues e.members) e.values := by
  obtain ⟨number, node⟩ := n
  obtain ⟨⟨t, rest, rfl, enum⟩, suffix⟩ := mem_enumTexts among
  cases declares with
  | @enumeration keyword id opening closing nodes ts _ enum named opens spells closes =>
    obtain ⟨members, values, writes, counts, rfl⟩ :=
      spells.counted fun t within => spelled t (suffix.subset (by simp [within]))
    exact ⟨⟨number, id.text, members, values⟩, rfl,
      ⟨_, behind, by simp, .enum enum named opens writes closes⟩, counts⟩
  | bodiless introduces => exact absurd (introduces.symm.trans enum) (by decide)
  | classDecl introduces => exact absurd (introduces.symm.trans enum) (by decide)
  | binding introduces =>
    rw [enum] at introduces
    cases introduces

theorem enums_found {texts : List (List Token)} {listed : List (Nat × Node)}
    (declared : List.Forall₂ (fun us n => ∃ behind, Declares .required (.node .scope n.2) us behind) texts listed)
    (among : ∀ us ∈ texts, us ∈ enumTexts tokens) (spelled : ∀ t ∈ tokens, t.Spelled) :
    ∃ found : List Enumeration, listed = found.map (fun e => (e.number, e.node)) ∧
      List.Forall₂ (fun us e => ∃ text behind, us = text ++ behind ∧ WritesEnum e.name e.members text) texts found ∧
      ∀ e ∈ found, Counts (some 0) (givenValues e.members) e.values := by
  induction declared with
  | nil => exact ⟨[], rfl, .nil, List.forall_mem_nil _⟩
  | cons first _ ih =>
    obtain ⟨here, others⟩ := List.forall_mem_cons.1 among
    obtain ⟨_, declares⟩ := first
    obtain ⟨e, rfl, writes, counts⟩ := enum_found declares here spelled
    obtain ⟨found, rfl, written, counted⟩ := ih others
    exact ⟨e :: found, rfl, .cons writes written, List.forall_mem_cons.2 ⟨counts, counted⟩⟩

end Found

-- The enums `found` of a source that is read as the program `written`.
structure Counted (source : String) (written : Node) (tokens : List Token) (found : List Enumeration) : Prop where
  -- They are the ones at the keywords, in the order in which they are written,
  keywords : List.Forall₂ (fun us e => ∃ text behind, us = text ++ behind ∧ WritesEnum e.name e.members text)
    (enumTexts tokens) found
  declared : enumerations 0 1 written = found.map fun e => (e.number, e.node)
  -- and have the values of the rule, which the entries of the members have, too.
  numbered : ∀ e ∈ found, Numbered 0 (givenValues e.members) (e.values.map Int64.toInt)
  entered : ∀ c, compile source = .ok c → ∀ e ∈ found, e.Entered c.meaning
  -- Values that are not written may be erased.
  erased : ∀ erased : Nat → Bool, (∀ e ∈ found, ∀ j member, e.members[j]? = some member →
      erased (e.number + 1 + j) = true → member.given = none) →
    typeProgram (dropValues erased 0 1 written) = typeProgram written

theorem readProgram_counted {source : String} {written : Node} (read : readProgram source = .ok written) :
    ∃ tokens found, tokensOf source = .ok tokens ∧ Counted source written tokens found := by
  obtain ⟨tokens, children, listed, rfl, declares⟩ := readProgram_declares read
  obtain ⟨texts, split, declared⟩ := declares.enumerates 0 1
  rw [show enumTexts [] = [] from rfl, List.append_nil] at split
  subst split
  obtain ⟨found, same, keywords, counts⟩ := enums_found declared (fun _ => id) (tokensOf_spelled listed)
  refine ⟨tokens, found, listed, keywords, same, fun e among => (counts e among).numbered zero_standsAt,
    fun c compiled e among => ?_, fun erased spares => ?_⟩
  · obtain ⟨again, typed⟩ := compile_eq_ok.1 compiled
    have written : c.written = .root children := Except.ok.inj (again.symm.trans read)
    refine Enumeration.entered typed ?_
    rw [written, enumerations, same]
    exact List.mem_map_of_mem among
  · refine declareAll_drop erased children Tree.empty 0 fun n listed => ?_
    rw [show Tree.empty.size = 1 from rfl, same] at listed
    obtain ⟨e, among, rfl⟩ := List.mem_map.1 listed
    exact ⟨e.name, e.members, e.values, rfl, counts e among, spares e among⟩

-- An enum that is all of a source is the one that is found there.
theorem Counted.single {source name : String} {written : Node} {text : List Token} {found : List Enumeration}
    {members : List Member} {n : Nat × Node} (counted : Counted source written text found)
    (writes : WritesEnum name members text) (only : enumTexts text = [text])
    (declared : enumerations 0 1 written = [n]) : ∃ values, found = [⟨n.1, name, members, values⟩] := by
  have keywords := counted.keywords
  have numbers := counted.declared
  rw [only] at keywords
  rw [declared] at numbers
  obtain ⟨⟨number, _, _, values⟩, _, ⟨_, behind, split, again⟩, none, rfl⟩ := List.forall₂_cons_left_iff.1 keywords
  cases none
  have whole : text ++ [] = _ := (List.append_nil _).trans split
  obtain ⟨rfl, rfl⟩ := writes.unique again whole
  exact ⟨values, by rw [(List.cons.inj numbers).1]⟩

-- The member behind the first one of two has the next value, where none is written for it.
theorem Numbered.of_two {start v : Int} {values : List Int64} (numbered : Numbered start [some v, none]
    (values.map Int64.toInt)) : ∃ w, values[1]? = some w ∧ w.toInt = v + 1 := by
  have first : (values.map Int64.toInt)[0]? = some v := numbered.explicit 0 v rfl
  have second := numbered.next 0 v rfl first
  rw [List.getElem?_map] at second
  exact Option.map_eq_some_iff.1 second

theorem greatest_value_listed :
    ∃ front text closing d e, tokensOf "class A; class B { enum C { D = 9223372036854775807, E } }" =
        .ok (front ++ text ++ [closing]) ∧ Leads front ∧ WritesEnum "C" [⟨d, some (2 ^ 63 - 1)⟩, ⟨e, none⟩] text ∧
      e.span = .ofBounds 53 54 := by
  let d : Token := ⟨.identifier, "D", none, .ofBounds 28 29⟩
  let e : Token := ⟨.identifier, "E", none, .ofBounds 53 54⟩
  let first : List Token := [⟨.classKeyword, "class", none, .ofBounds 0 5⟩, ⟨.identifier, "A", none, .ofBounds 6 7⟩,
    ⟨.semicolon, ";", none, .ofBounds 7 8⟩]
  let outer : List Token := [⟨.classKeyword, "class", none, .ofBounds 9 14⟩,
    ⟨.identifier, "B", none, .ofBounds 15 16⟩, ⟨.leftBrace, "\x7b", none, .ofBounds 17 18⟩]
  let text : List Token := [⟨.enumKeyword, "enum", none, .ofBounds 19 23⟩, ⟨.identifier, "C", none, .ofBounds 24 25⟩,
    ⟨.leftBrace, "\x7b", none, .ofBounds 26 27⟩, d, ⟨.assign, "=", none, .ofBounds 30 31⟩,
    ⟨.integer, "9223372036854775807", some (.integer Int64.maxValue), .ofBounds 32 51⟩,
    ⟨.comma, ",", none, .ofBounds 51 52⟩, e, ⟨.rightBrace, "\x7d", none, .ofBounds 55 56⟩]
  have leads : Leads (first ++ outer) :=
    .inside (.behind .start (@Declares.bodiless _ _ ⟨.identifier, "A", none, .ofBounds 6 7⟩ _ _ _ _ _ _ rfl rfl
      .none .none rfl)) rfl rfl .none .none rfl
  have writes : WritesEnum "C" [⟨d, some (2 ^ 63 - 1)⟩, ⟨e, none⟩] text :=
    @WritesEnum.enum _ ⟨.identifier, "C", none, .ofBounds 24 25⟩ _ _ _ _ rfl rfl rfl
      (.more rfl (@WritesValue.plain _ _ Int64.maxValue rfl rfl rfl) rfl (.last rfl .none)) rfl
  exact ⟨first ++ outer, text, ⟨.rightBrace, "\x7d", none, .ofBounds 57 58⟩, d, e,
    ok_of_toOption (by decide +kernel), leads, writes, rfl⟩

theorem counted_value_listed :
    ∃ text a b, tokensOf "enum E { A = -1, B }" = .ok text ∧ enumTexts text = [text] ∧
      WritesEnum "E" [⟨a, some (-1)⟩, ⟨b, none⟩] text ∧ b.text = "B" := by
  let a : Token := ⟨.identifier, "A", none, .ofBounds 9 10⟩
  let b : Token := ⟨.identifier, "B", none, .ofBounds 17 18⟩
  let text : List Token := [⟨.enumKeyword, "enum", none, .ofBounds 0 4⟩, ⟨.identifier, "E", none, .ofBounds 5 6⟩,
    ⟨.leftBrace, "\x7b", none, .ofBounds 7 8⟩, a, ⟨.assign, "=", none, .ofBounds 11 12⟩,
    ⟨.minus, "-", none, .ofBounds 13 14⟩, ⟨.integer, "1", some (.integer 1), .ofBounds 14 15⟩,
    ⟨.comma, ",", none, .ofBounds 15 16⟩, b, ⟨.rightBrace, "\x7d", none, .ofBounds 19 20⟩]
  have writes : WritesEnum "E" [⟨a, some (-1)⟩, ⟨b, none⟩] text :=
    @WritesEnum.enum _ ⟨.identifier, "E", none, .ofBounds 5 6⟩ _ _ _ _ rfl rfl rfl
      (.more rfl (@WritesValue.negative _ _ _ 1 rfl rfl rfl rfl) rfl (.last rfl .none)) rfl
  exact ⟨text, a, b, ok_of_toOption (by decide +kernel), rfl, writes, rfl⟩

-- Reading a source and entering its declarations count the members of enums by one rule.
--
-- So it is for all the enums of a program.  And wherever a declaration is looked for, an enum is refused for its
-- numbering only if a member without a value comes behind the greatest one.
theorem enum_values_counted (source : String) :
    (∀ written, readProgram source = .ok written →
      ∃ tokens found, tokensOf source = .ok tokens ∧ Counted source written tokens found) ∧
    ∀ front text behind name members,
      Listed [] (TokenStream.ofSource source) ((front ++ text).map .ok ++ behind) → Leads front →
      WritesEnum name members text → ∃ values, Decided source front text behind name members values := by
  refine ⟨fun written read => readProgram_counted read, fun front text behind name members listed => ?_⟩
  exact enum_decided (lists_of_listed listed rfl (placed_start source))

-- `E` comes behind the greatest value, in a class behind another one.  The value of `B` is counted from that of
-- `A`, and may be erased.
theorem greatest_value_overflows :
    readProgram "class A; class B { enum C { D = 9223372036854775807, E } }" =
      .error (.grammatical ⟨Span.ofBounds 53 54, .enumValueOverflow⟩) ∧
    ∃ c, compile "enum E { A = -1, B }" = .ok c ∧
      c.meaning.draft? 3 = some ⟨"B", .binding .enumMember (some (.declared 1))
        (some (.literal (.integer 0) Ref.integer)), false⟩ ∧
      dropValues (· = 3) 0 1 c.written = .root [.enumeration "E" [.binding (memberDecl "E" "A" (-1)),
        .binding ⟨.enumMember, "B", some (.plain "E"), none, none⟩]] ∧
      typeProgram (dropValues (· = 3) 0 1 c.written) = .ok c.meaning := by
  constructor
  · obtain ⟨front, text, closing, d, e, listed, leads, writes, place⟩ := greatest_value_listed
    have lists := (tokensOf_ok.1 listed).listed
    rw [List.map_append] at lists
    obtain ⟨values, decided⟩ := (enum_values_counted _).2 _ _ _ _ _ lists leads writes
    have greatest : values[0]? = some (2 ^ 63 - 1) := decided.numbered.explicit 0 _ rfl
    obtain ⟨member, there, failed⟩ := decided.refused 0 ⟨greatest, rfl⟩ nofun
    cases there
    rwa [place] at failed
  · obtain ⟨text, a, b, listed, only, writes, named⟩ := counted_value_listed
    have compiles : (compile "enum E { A = -1, B }").toOption.map Compilation.written =
        some (.root [.enumeration "E" [.binding (memberDecl "E" "A" (-1)), .binding (memberDecl "E" "B" 0)]]) := by
      decide +kernel
    obtain ⟨c, compiled, tree⟩ := Option.map_eq_some_iff.1 compiles
    have compiled := ok_of_toOption compiled
    obtain ⟨read, typed⟩ := compile_eq_ok.1 compiled
    obtain ⟨_, found, listed', counted⟩ := (enum_values_counted _).1 _ read
    cases listed.symm.trans listed'
    obtain ⟨values, rfl⟩ := counted.single writes only (by rw [tree]; rfl)
    obtain ⟨v, valued, next⟩ := (counted.numbered _ List.mem_cons_self).of_two
    obtain rfl : v = 0 := Int64.toInt_inj.1 next
    have shown := ((counted.entered c compiled _ List.mem_cons_self).member 1 ⟨b, none⟩ 0 rfl valued).1
    rw [named] at shown
    refine ⟨c, compiled, shown, by rw [tree]; rfl, ?_⟩
    rw [counted.erased _ ?_, typed]
    intro e among j member is drops
    obtain rfl := List.mem_singleton.1 among
    match j, is with
    | 0, _ => simp at drops
    | 1, is => cases is; rfl

end Frontend
