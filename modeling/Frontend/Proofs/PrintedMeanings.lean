import Frontend.Proofs.ScopeWalks

-- Printed scope trees and similarity agree.  What is printed for a program names the types, and the names,
-- their order and the scopes determine what they refer to: programs that are printed alike have one scope
-- tree.

namespace Frontend

open Text
open Scope (Draft Kind Parameter Primitive Ref SameAt SameName Tree TypedExpr)
open Scope.Tree
open Surface (Modifiers Node)

namespace Typing

structure Meant (t : Tree) : Prop where
  nested : Nested t
  depthFirst : t.DepthFirst
  root : t.draft? 0 = some ⟨"", .root, false⟩
  sound : ∀ n, 0 < n → n < t.size → SoundAt t n
  typed : ∀ n, 0 < n → n < t.size → TypedAt t n
  gets : ∀ n, 0 < n → Gets t n
  shown : ∀ n d, 0 < n → t.draft? n = some d → d.Shown t
  contained : ∀ n d, t.draft? n = some d → ∀ r ∈ d.kind.types, t.contains r

theorem primitive_word (p : Primitive) : Word p.name := by
  have word {text : String} (some : text ≠ "") (all : text.toList.all isAlphanumeric = true) : Word text :=
    ⟨some, List.all_eq_true.1 all⟩
  cases p
  · exact word (by decide) (by decide +kernel)
  · exact word (by decide) (by decide +kernel)
  · exact word (by decide) (by decide +kernel)
  · exact word (by decide) (by decide +kernel)

variable {source : String} {c : Compilation} {t u : Tree} {n : Nat} {d d' : Draft} {r s x : Ref}

theorem compile_legible (compiled : compile source = .ok c) (positive : 0 < n)
    (stands : c.meaning.draft? n = some d) : d.Legible := by
  obtain ⟨children, written, -, enters⟩ := compile_enters compiled
  obtain ⟨_, same, legible⟩ := readProgram_legible (compile_eq_ok.1 compiled).1
  cases same.symm.trans written
  exact (enters.legible legible).1 n d positive stands

-- What is visible is called by a word.
theorem visible_word (root : t.draft? 0 = some ⟨"", .root, false⟩)
    (legible : ∀ n d, 0 < n → t.draft? n = some d → d.Legible) (visible : t.Visible x r) :
    Word (t.name r) := by
  obtain ⟨e, scope, outer, found, type, -⟩ := visible
  rw [Tree.name, found, Option.map_some, Option.getD_some]
  cases r with
  | builtin which =>
    cases found
    cases which with
    | type p => exact primitive_word p
    | integerAdd => cases type
  | declared m =>
    have is : t.draft? m = some e.toDraft := by rw [draft?, found]; rfl
    have known : e.toDraft.Legible := by
      cases m with
      | zero =>
        have kind : e.kind = .root := congrArg Draft.kind (Option.some.inj (is.symm.trans root))
        rw [kind] at type
        cases type
      | succ m => exact legible (m + 1) e.toDraft (Nat.succ_pos m) is
    obtain ⟨d, _, _⟩ := e
    cases known with
    | enumeration word | classDecl word _ => exact word
    | binding _ _ | function _ _ _ _ => cases type

theorem compile_meant (compiled : compile source = .ok c) : Meant c.meaning := by
  obtain ⟨children, written, formed, enters⟩ := compile_enters compiled
  have rooted : 0 < Tree.empty.size := Tree.empty.rooted
  have operatorless := enters.operatorless formed operatorless_empty
  have nested := enters.nested rooted Tree.nested_empty
  obtain ⟨root, sound⟩ := compile_sound compiled
  have legible : ∀ n d, 0 < n → c.meaning.draft? n = some d → d.Legible :=
    fun n d positive stands => compile_legible compiled positive stands
  refine ⟨nested, (enters.depthFirst rooted Tree.nested_empty depthFirst_empty open_empty).1, root, sound,
    fun n positive small => compile_typed compiled positive small,
    enters.gets rooted Tree.nested_empty operatorless formed, fun n d positive stands => ?_,
    fun n d stands r member => ?_⟩
  · exact ⟨legible n d positive stands,
      fun r member => visible_word root legible (compile_visible compiled stands r member),
      compile_values compiled stands⟩
  · obtain ⟨e, _, _, found, -⟩ := compile_visible compiled stands r member
    rw [contains, found]
    rfl

theorem alike_label (alike : d.Alike t u d') : label d' = label d := by
  obtain ⟨name, kind, internal⟩ := d
  obtain ⟨name', kind', internal'⟩ := d'
  obtain ⟨rfl, -, agree⟩ := alike
  cases agree <;> rfl

-- The type of a variable is that of its value, and that of a member is its enum.
theorem Meant.binding_rule (meant : Meant t) {name : String} {modifiers : Modifiers} {ty : Option Ref}
    {init : Option TypedExpr} {internal : Bool} (positive : 0 < n)
    (is : t.draft? n = some ⟨name, .binding modifiers ty init, internal⟩) :
    Typed t n (.binding modifiers ty init) ∧
    ∃ p < n, t.parent (.declared n) = some (.declared p) ∧
      if t.inEnum (some (.declared p)) then ty = some (.declared p) else ∀ e ∈ init, ty = some e.ty := by
  have small := draft?_lt is
  obtain ⟨p, _, before, stands, self, sound⟩ := meant.sound n positive small
  obtain ⟨_, self', typed⟩ := meant.typed n positive small
  cases is.symm.trans self
  cases is.symm.trans self'
  have rule := sound.2.2
  refine ⟨typed, p, before, stands, ?_⟩
  split
  · next member =>
    rw [if_pos member] at rule
    exact rule.1
  · next other =>
    rw [if_neg other] at rule
    exact rule

theorem Meant.function_rule (meant : Meant t) {name : String} {static : Bool} {generics : List String}
    {returnType : Option Ref} {parameters : List Parameter} {returns : List TypedExpr} {internal : Bool}
    (positive : 0 < n)
    (is : t.draft? n = some ⟨name, .function static generics returnType parameters returns, internal⟩) :
    Typed t n (.function static generics returnType parameters returns) ∧
      ∀ e ∈ returns, returnType = some e.ty := by
  have small := draft?_lt is
  obtain ⟨p, _, -, -, self, sound⟩ := meant.sound n positive small
  obtain ⟨_, self', typed⟩ := meant.typed n positive small
  cases is.symm.trans self
  cases is.symm.trans self'
  exact ⟨typed, fun e given => (sound e given).2⟩

-- What the next entry gives back decides the type of a variable.
theorem Meant.given_type (meant : Meant t) {e : TypedExpr} {name : String} {modifiers : Modifiers}
    {ty : Option Ref} {init : Option TypedExpr} {internal : Bool} (next : t.draft? (n + 1) = some d)
    (given : e ∈ d.kind.returns) (is : t.draft? n = some ⟨name, .binding modifiers ty init, internal⟩) :
    ty = some e.ty := by
  obtain ⟨name', kind, internal'⟩ := d
  cases kind with
  | function static generics returnType parameters returns =>
    cases returns with
    | nil => cases given
    | cons first others =>
      obtain ⟨m, _, _, _, behind, is'⟩ := meant.gets (n + 1) (Nat.succ_pos n) _ _ _ _ _ _ _ _ next
      cases behind
      cases is.symm.trans is'
      exact (meant.function_rule (Nat.succ_pos n) next).2 e given
  | _ => cases given

-- Nested trees are told by what their entries are and where they stand.
theorem ext_drafts (nested : Nested t) (nested' : Nested u) (size : t.size = u.size)
    (same : ∀ m < t.size, t.parent (.declared m) = u.parent (.declared m) ∧ t.draft? m = u.draft? m) :
    t = u := by
  have inside (m : Nat) : t.inside m = u.inside m := by
    rw [Tree.inside, Tree.inside, ← size]
    exact List.filter_congr fun k member => by rw [(same k (List.mem_range.1 member)).1]
  have children (m : Nat) : t.children (.declared m) = u.children (.declared m) := by
    rw [nested.children, nested'.children, inside]
  have beyond {t : Tree} {m : Nat} (late : t.size ≤ m) : t.get? (.declared m) = none := by
    rw [← Option.not_isSome_iff_eq_none, get?_isSome]
    exact Nat.not_lt.2 late
  refine ext_get? fun m => ?_
  rcases Nat.lt_or_ge m t.size with small | late
  · obtain ⟨parents, drafts⟩ := same m small
    have listed := children m
    obtain ⟨⟨d, p, cs⟩, found⟩ := Option.isSome_iff_exists.1 (get?_isSome.2 small)
    obtain ⟨⟨d', p', cs'⟩, found'⟩ := Option.isSome_iff_exists.1 (get?_isSome.2 (size ▸ small))
    rw [Tree.parent, Tree.parent, found, found'] at parents
    rw [draft?, draft?, found, found'] at drafts
    rw [children_of_get? found, children_of_get? found'] at listed
    cases parents
    cases drafts
    cases listed
    rw [found, found']
  · rw [beyond late, beyond (size ▸ late)]

-- Two trees of programs whose entries agree one by one, up to the names of what they refer to.
structure Matched (t u : Tree) : Prop where
  left : Meant t
  right : Meant u
  size : t.size = u.size
  same : ∀ n, 0 < n → n < t.size → SameAt t u n

namespace Matched

variable (both : Matched t u)

include both

theorem agree (small : n < t.size) : Agree n t u where
  inside := small
  inside' := both.size ▸ small
  parent m before := by
    cases m with
    | zero => exact both.right.nested.root.trans both.left.nested.root.symm
    | succ m => exact (both.same _ (Nat.succ_pos m) (Nat.lt_of_le_of_lt before small)).1.symm
  label m before := by
    cases m with
    | zero => rw [both.left.root, both.right.root]
    | succ m =>
      obtain ⟨-, d, d', is, is', alike⟩ := both.same _ (Nat.succ_pos m) (before.trans small)
      rw [is, is', Option.map_some, Option.map_some, alike_label alike]

-- Types that are meant by one name are one type.
theorem named (small : n < t.size) (here : Named t n r) (there : Named u n s) (same : SameName t u r s) :
    r = s := by
  obtain ⟨name, near⟩ := here
  obtain ⟨name', near'⟩ := there
  have names : name = name' := (near.found both.left.nested).2.symm.trans
    (same.trans (near'.found both.right.nested).2)
  subst names
  exact ((both.agree small).nearest both.left.nested both.right.nested near).unique near'

variable {name name' : String} {modifiers modifiers' : Modifiers} {ty ty' : Option Ref}
  {init : Option TypedExpr} {internal internal' : Bool}

-- An enum on one side is an enum on the other.
theorem inEnum (small : n < t.size) : u.inEnum (some (.declared n)) = t.inEnum (some (.declared n)) := by
  rw [inEnum_eq, inEnum_eq]
  cases n with
  | zero => rw [both.left.root, both.right.root]
  | succ n =>
    obtain ⟨-, d, d', is, is', alike⟩ := both.same _ (Nat.succ_pos n) small
    rw [is, is', Option.any_some, Option.any_some]
    cases d
    cases d'
    obtain ⟨-, -, agree⟩ := alike
    cases agree <;> rfl

-- The next entries give the same values back.
theorem next_returns (small : n + 1 < t.size) : ∃ d d', t.draft? (n + 1) = some d ∧
    u.draft? (n + 1) = some d' ∧ d.kind.returns = d'.kind.returns := by
  obtain ⟨-, d, d', is, is', alike⟩ := both.same (n + 1) (Nat.succ_pos n) small
  have sober := (both.left.shown _ d (Nat.succ_pos n) is).sober
  have sober' := (both.right.shown _ d' (Nat.succ_pos n) is').sober
  exact ⟨d, d', is, is', alike.kind.returns sober sober'⟩

theorem binding_type (positive : 0 < n) (is : t.draft? n = some ⟨name, .binding modifiers ty init, internal⟩)
    (is' : u.draft? n = some ⟨name', .binding modifiers' ty' init, internal'⟩)
    (types : Option.Rel (SameName t u) ty ty') : ty = ty' := by
  have small := draft?_lt is
  obtain ⟨⟨r, rfl, reason⟩, p, before, stands, rule⟩ := both.left.binding_rule positive is
  obtain ⟨⟨s, rfl, reason'⟩, p', -, stands', rule'⟩ := both.right.binding_rule positive is'
  cases stands.symm.trans ((both.same n positive small).1.trans stands')
  rw [both.inEnum (before.trans small)] at rule'
  by_cases member : t.inEnum (some (.declared p)) = true
  · rw [if_pos member] at rule rule'
    exact rule.trans rule'.symm
  rw [if_neg member] at rule rule'
  have given (next : n + 1 < t.size) {e : TypedExpr} {d : Draft} (after : t.draft? (n + 1) = some d)
      (gives : e ∈ d.kind.returns) : some r = some s := by
    obtain ⟨d₁, d', after₁, after', returns⟩ := both.next_returns next
    cases after.symm.trans after₁
    exact (both.left.given_type after gives is).trans
      (both.right.given_type after' (returns ▸ gives) is').symm
  cases init with
  | some e => exact (rule e rfl).trans (rule' e rfl).symm
  | none =>
    rcases reason with named | ⟨_, none, -⟩ | ⟨d, after, e, gives, -⟩
    · rcases reason' with named' | ⟨_, none, -⟩ | ⟨d', after', e, gives, -⟩
      · cases types with
        | some same => exact congrArg some (both.named small named named' same)
      · cases none
      · have next := both.size.symm ▸ draft?_lt after'
        obtain ⟨d, d₁, after, after₁, returns⟩ := both.next_returns next
        cases after'.symm.trans after₁
        exact given next after (returns ▸ gives)
    · cases none
    · exact given (draft?_lt after) after gives

theorem parameters_eq (small : n < t.size) : ∀ {ps qs : List Parameter},
    List.Forall₂ (Parameter.Matches (SameName t u)) ps qs → (∀ p ∈ ps, Named t n p.ty) →
    (∀ q ∈ qs, Named u n q.ty) → ps = qs
  | _, _, .nil, _, _ => rfl
  | ⟨_, _, _⟩ :: _, ⟨_, _, _⟩ :: _, .cons first others, named, named' => by
    rw [List.forall_mem_cons] at named named'
    obtain ⟨rfl, rfl, same⟩ := first
    rw [parameters_eq small others named.2 named'.2]
    exact congrArg (fun r => Parameter.mk _ _ r :: _) (both.named small named.1 named'.1 same)

theorem function_types {static static' : Bool} {generics generics' : List String}
    {returnType returnType' : Option Ref} {parameters parameters' : List Parameter}
    {returns : List TypedExpr} (positive : 0 < n)
    (is : t.draft? n = some ⟨name, .function static generics returnType parameters returns, internal⟩)
    (is' : u.draft? n = some ⟨name', .function static' generics' returnType' parameters' returns, internal'⟩)
    (types : Option.Rel (SameName t u) returnType returnType')
    (accepted : List.Forall₂ (Parameter.Matches (SameName t u)) parameters parameters') :
    returnType = returnType' ∧ parameters = parameters' := by
  have small := draft?_lt is
  obtain ⟨⟨reason, named⟩, rule⟩ := both.left.function_rule positive is
  obtain ⟨⟨reason', named'⟩, rule'⟩ := both.right.function_rule positive is'
  refine ⟨?_, both.parameters_eq small accepted named named'⟩
  cases returns with
  | cons e _ => exact (rule e List.mem_cons_self).trans (rule' e List.mem_cons_self).symm
  | nil =>
    cases types with
    | none => rfl
    | some same =>
      have here := (reason _ rfl).resolve_right fun ⟨_, within, _⟩ => List.not_mem_nil within
      have there := (reason' _ rfl).resolve_right fun ⟨_, within, _⟩ => List.not_mem_nil within
      exact congrArg some (both.named small here there same)

theorem draft_eq (positive : 0 < n) (is : t.draft? n = some d) (is' : u.draft? n = some d')
    (alike : d.Alike t u d') : d = d' := by
  have sober := (both.left.shown n d positive is).sober
  have sober' := (both.right.shown n d' positive is').sober
  obtain ⟨name, kind, internal⟩ := d
  obtain ⟨name', kind', internal'⟩ := d'
  obtain ⟨rfl, rfl, agree⟩ := alike
  have values := agree.values sober sober'
  cases agree with
  | root | enumeration | classDecl => rfl
  | binding types inits =>
    obtain rfl := Scope.toList_unique values
    obtain rfl := both.binding_type positive is is' types
    rfl
  | function types parameters returns =>
    obtain rfl : _ = _ := values
    obtain ⟨rfl, rfl⟩ := both.function_types positive is is' types parameters
    rfl

-- The two trees are one.
theorem eq : t = u := by
  refine ext_drafts both.left.nested both.right.nested both.size fun m small => ?_
  refine ⟨((both.agree small).parent m (Nat.le_refl m)).symm, ?_⟩
  cases m with
  | zero => rw [both.left.root, both.right.root]
  | succ m =>
    obtain ⟨-, d, d', is, is', alike⟩ := both.same _ (Nat.succ_pos m) small
    rw [is, is', both.draft_eq (Nat.succ_pos m) is is' alike]

end Matched

theorem Meant.values_legible (meant : Meant t) {e : Scope.Entry} (found : t.get? x = some e) :
    ∀ value ∈ e.kind.values, value.Legible := by
  cases x with
  | builtin which =>
    cases found
    cases which <;> exact List.forall_mem_nil _
  | declared n =>
    have is : t.draft? n = some e.toDraft := by rw [draft?, found]; rfl
    cases n with
    | zero =>
      have kind : e.kind = .root := congrArg Draft.kind (Option.some.inj (is.symm.trans meant.root))
      rw [kind]
      exact List.forall_mem_nil _
    | succ n => exact fun value given => ((meant.shown _ _ (Nat.succ_pos n) is).sober value given).2

theorem Meant.nanFree (meant : Meant t) : t.NaNFree :=
  fun _ _ found value given => (meant.values_legible found value given).hasNaN

theorem Meant.whole (meant : Meant t) : t.Whole := by
  intro x e found
  cases x with
  | builtin which =>
    cases found
    cases which with
    | type p => exact List.forall_mem_nil _
    | integerAdd =>
      have all : ∀ r ∈ Scope.Builtin.integerAdd.entry.kind.types, r = Ref.integer := by decide
      intro r member
      rw [all r member]
      rfl
  | declared n => exact meant.contained n e.toDraft (by rw [draft?, found]; rfl)

-- The tree of a program is similar to itself.
theorem Meant.similar_self (meant : Meant t) : t.Bisimilar t Ref.root Ref.root :=
  meant.whole.bisimilar_self meant.nanFree (contains_declared.2 t.rooted)

-- What is printed for a program tells its tree.
theorem Meant.text_injective (left : Meant t) (right : Meant u) (same : t.text = u.text) : t = u := by
  have alike := (Tree.text_iff (Tree.shown_parts left.nested left.shown)
    (Tree.shown_parts right.nested right.shown)).1 same
  obtain ⟨size, same⟩ := Tree.sameAt left.nested right.nested left.depthFirst right.depthFirst alike
  exact Matched.eq ⟨left, right, size, same⟩

theorem Meant.text_of_similar (left : Meant t) (right : Meant u)
    (plain : ∀ n d, t.draft? n = some d → d.internal = false)
    (plain' : ∀ n d, u.draft? n = some d → d.internal = false)
    (similar : t.similar Ref.root u Ref.root = true) : t.text = u.text := by
  obtain ⟨R, bisimulation, related⟩ := (similar_iff _ _).1 similar
  have children := (bisimulation _ _ related).children
  rw [Ref.root, Scope.shown_declared plain left.nested,
    Scope.shown_declared plain' right.nested] at children
  have walked := (left.nested.walk_branch 0 t.rooted).branches
  have walked' := (right.nested.walk_branch 0 u.rooted).branches
  have alike := Scope.Branch.alikeAll left.nested right.nested plain plain' bisimulation _ walked walked'
    children
  exact (Tree.text_iff (Tree.shown_parts left.nested left.shown)
    (Tree.shown_parts right.nested right.shown)).2 alike

-- No getter of the program is written in the short form, for which a body is made up.
def WrittenOut (written : Node) : Prop :=
  ∀ site ∈ nodeSites 0 1 written, site.declaration.internal = false

instance (written : Node) : Decidable (WrittenOut written) :=
  inferInstanceAs (Decidable (∀ site ∈ nodeSites 0 1 written, site.declaration.internal = false))

theorem WrittenOut.plain (plain : WrittenOut c.written) (compiled : compile source = .ok c) :
    ∀ n d, c.meaning.draft? n = some d → d.internal = false := by
  intro n d is
  obtain ⟨-, numbers, settled⟩ := compile_settled compiled
  cases n with
  | zero =>
    cases is.symm.trans (compile_meant compiled).root
    rfl
  | succ n =>
    have small := draft?_lt is
    have member : n + 1 ∈ (nodeSites 0 1 c.written).map Site.number := by
      rw [numbers, List.mem_range'_1]
      omega
    obtain ⟨site, among, number⟩ := List.mem_map.1 member
    obtain ⟨-, ⟨d', is', -, -, internal, -⟩, -⟩ := settled site among
    rw [number] at is'
    cases is.symm.trans is'
    rw [internal, plain site among]

end Typing

open Typing

-- Programs that are printed alike are similar.  The converse holds of programs that write the bodies of their
-- getters out; a body that is made up is printed, but comparisons skip it.
theorem printed_meanings_agree {source source' : String} {a b : Compilation}
    (left : compile source = .ok a) (right : compile source' = .ok b) :
    (a.meaning.text = b.meaning.text → a.meaning.similar Ref.root b.meaning Ref.root = true) ∧
    (WrittenOut a.written → WrittenOut b.written →
      a.meaning.similar Ref.root b.meaning Ref.root = true → a.meaning.text = b.meaning.text) := by
  have meant := compile_meant left
  have meant' := compile_meant right
  constructor
  · intro same
    rw [← meant.text_injective meant' same]
    exact (similar_iff _ _).2 meant.similar_self
  · intro plain plain' similar
    exact meant.text_of_similar meant' (plain.plain left) (plain'.plain right) similar

theorem spellings_printed_alike :
    ∃ a b, compile "class Integer; var a: Integer; val b get { return 1; }" = .ok a ∧
      compile "class Integer { } var a: Integer; val b get { return (1); }" = .ok b ∧
      a.meaning.similar Ref.root b.meaning Ref.root = true ∧ a.meaning.text = b.meaning.text := by
  let m : Tree := (((Tree.empty.push 0 ⟨"Integer", .classDecl [], false⟩).push 0
    ⟨"a", .binding .var (some (.declared 1)) none, false⟩).push 0
    ⟨"b", .binding .readOnly (some Ref.integer) none, false⟩).push 0
    ⟨"get_b", .function false [] (some Ref.integer) [] [.literal (.integer 1) Ref.integer], false⟩
  have read : ((compile "class Integer; var a: Integer; val b get { return 1; }").toOption.map
      fun c => (c.meaning, decide (WrittenOut c.written))) = some (m, true) := by
    decide +kernel
  have read' : ((compile "class Integer { } var a: Integer; val b get { return (1); }").toOption.map
      fun c => (c.meaning, decide (WrittenOut c.written))) = some (m, true) := by
    decide +kernel
  cases left : compile "class Integer; var a: Integer; val b get { return 1; }" with
  | error e => rw [left] at read; cases read
  | ok a =>
    cases right : compile "class Integer { } var a: Integer; val b get { return (1); }" with
    | error e => rw [right] at read'; cases read'
    | ok b =>
      rw [left] at read
      rw [right] at read'
      have means : a.meaning = m := congrArg Prod.fst (Option.some.inj read)
      have means' : b.meaning = m := congrArg Prod.fst (Option.some.inj read')
      have plain : WrittenOut a.written := of_decide_eq_true (congrArg Prod.snd (Option.some.inj read))
      have plain' : WrittenOut b.written := of_decide_eq_true (congrArg Prod.snd (Option.some.inj read'))
      obtain ⟨printed, compared⟩ := printed_meanings_agree left right
      have similar := printed (by rw [means, means'])
      exact ⟨a, b, rfl, rfl, similar, compared plain plain' similar⟩

end Frontend
