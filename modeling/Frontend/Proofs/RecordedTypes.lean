import Frontend.Proofs.ScopeRules
import Frontend.Proofs.Shadowing

-- The types that were recorded, looked up again in the finished tree.  A type is looked up when its
-- declaration is entered.  In the finished tree the same lookup finds the same type, unless another type of
-- the name was declared later where it is found first.

namespace Frontend

open Scope (Draft Entry Primitive Ref Tree)
open Scope.Tree
open Surface (BindingDecl FunctionDecl)

namespace Scope.Tree

variable {t : Tree} {n m : Nat} {r s q scope : Ref} {name : String}

theorem takeWhile_split {α : Type} [DecidableEq α] {x : α} {xs : List α} (among : x ∈ xs) :
    ∃ ys, xs = xs.takeWhile (· ≠ x) ++ x :: ys := by
  induction xs with
  | nil => cases among
  | cons y xs ih =>
    by_cases same : y = x
    · subst same
      exact ⟨xs, by simp⟩
    · obtain ⟨ys, split⟩ := ih ((List.mem_cons.1 among).resolve_left (Ne.symm same))
      refine ⟨ys, ?_⟩
      rw [List.takeWhile_cons_of_pos (by simpa using same), List.cons_append, ← split]

theorem scopes_split (around : q ∈ t.scopes s) : ∃ outer, t.scopes s = t.nearer s q ++ q :: outer :=
  takeWhile_split around

theorem Nested.nearer_eq (nested : Nested t) {inner outer : List Ref}
    (scopes : t.scopes s = inner ++ scope :: outer) : t.nearer s scope = inner := by
  have nodup := (nested.climb_scopes s).nodup nested
  rw [scopes] at nodup
  have apart : ∀ x ∈ inner, x ≠ scope := by
    rintro x within rfl
    exact (List.nodup_append.1 nodup).2.2 x within x List.mem_cons_self rfl
  rw [nearer, scopes, List.takeWhile_append_of_pos fun x within => by simpa using apart x within]
  simp

-- What is found stands in the scope, or in a nearer one, if the scope has an entry that fits.
theorem find_within {fits : Entry → Bool} (around : q ∈ t.scopes s) (found : t.findChild fits q ≠ none) :
    ∃ scope ∈ t.nearer s q ++ [q], ∃ r, t.findChild fits scope = some r ∧ t.find fits s = some r := by
  obtain ⟨outer, scopes⟩ := scopes_split around
  have some : ((t.nearer s q ++ [q]).findSome? (t.findChild fits)).isSome := by
    rw [List.findSome?_isSome_iff]
    exact ⟨q, by simp, Option.isSome_iff_ne_none.2 found⟩
  obtain ⟨r, first⟩ := Option.isSome_iff_exists.1 some
  obtain ⟨scope, within, here⟩ := List.exists_of_findSome?_eq_some first
  refine ⟨scope, within, r, here, ?_⟩
  have same : t.nearer s q ++ q :: outer = (t.nearer s q ++ [q]) ++ outer := by simp
  rw [find, scopes, same, List.findSome?_append, first]
  rfl

theorem findChild_eq (fits : Entry → Bool) (s : Ref) :
    t.findChild fits s = ((t.children s).filter fun r => (t.get? r).any fits).getLast? := by
  rw [findChild, ← List.head?_filter, List.filter_reverse, List.head?_reverse]

theorem Nested.children_ordered (nested : Nested t) (s : Ref) : (t.children s).Pairwise Ref.Before := by
  cases s with
  | builtin which => rcases which with ⟨_ | _ | _ | _⟩ | _ <;> simp [Tree.children, get?, Scope.Builtin.entry]
  | declared p =>
    rw [nested.children, List.pairwise_append]
    refine ⟨?_, ?_, ?_⟩
    · split
      · exact List.pairwise_map.2 (List.pairwise_of_forall fun _ _ => trivial)
      · exact .nil
    · exact List.pairwise_map.2 (List.pairwise_lt_range.filter _)
    · intro r primitive x _
      split at primitive
      · obtain ⟨_, -, rfl⟩ := List.mem_map.1 primitive
        trivial
      · cases primitive

theorem last_of_pairwise {α : Type} {R : α → α → Prop} {xs : List α} {x y : α} (ordered : xs.Pairwise R)
    (last : xs.getLast? = some x) (among : y ∈ xs) : y = x ∨ R y x := by
  obtain ⟨front, rfl⟩ := List.getLast?_eq_some_iff.1 last
  rcases List.mem_append.1 among with early | same
  · exact .inr ((List.pairwise_append.1 ordered).2.2 y early x (List.mem_singleton_self x))
  · exact .inl (List.mem_singleton.1 same)

-- The entry `m` is a type of the name that was added after the entry `n`.
def TypeAfter (t : Tree) (n : Nat) (name : String) (m : Nat) : Prop :=
  n < m ∧ ∃ d, t.draft? m = some d ∧ d.IsType name

theorem typeAfter_iff : t.TypeAfter n name m ↔
    n < m ∧ (t.get? (.declared m)).any (Entry.isTypeNamed name) = true := by
  refine and_congr_right fun _ => ?_
  rw [draft?]
  cases t.get? (.declared m) with
  | none => simp
  | some e => simp [Entry.isTypeNamed, Draft.IsType]

-- Of several types in a scope the last one is found.
theorem Nested.findChild_later (nested : Nested t) (later : t.TypeAfter n name m)
    (child : .declared m ∈ t.children q) : ∃ k, t.TypeAfter n name k ∧ .declared k ∈ t.children q ∧
      t.findChild (Entry.isTypeNamed name) q = some (.declared k) := by
  obtain ⟨after, fits⟩ := typeAfter_iff.1 later
  have among : .declared m ∈ (t.children q).filter fun r => (t.get? r).any (Entry.isTypeNamed name) :=
    List.mem_filter.2 ⟨child, fits⟩
  obtain ⟨x, last⟩ := Option.isSome_iff_exists.1 (List.getLast?_isSome.2 (List.ne_nil_of_mem among))
  have bound := last_of_pairwise ((nested.children_ordered q).filter _) last among
  obtain ⟨here, fits'⟩ := List.mem_filter.1 (List.mem_of_getLast? last)
  rw [findChild_eq, last]
  cases x with
  | builtin which => rcases bound with same | before <;> contradiction
  | declared k =>
    have behind : m ≤ k := bound.elim (fun same => (Ref.declared.inj same).le) Nat.le_of_lt
    exact ⟨k, typeAfter_iff.2 ⟨Nat.lt_of_lt_of_le after behind, fits'⟩, here, rfl⟩

section Entry

variable (untyped : ∀ d, t.draft? n = some d → d.kind.isType = false)

include untyped

-- A type is there before an entry, or was added after it.
theorem before_or_after (fits : (t.get? r).any (Entry.isTypeNamed name) = true) :
    r.Before (.declared n) ∨ ∃ m, r = .declared m ∧ t.TypeAfter n name m := by
  cases r with
  | builtin which => exact .inl trivial
  | declared m =>
    rcases Nat.lt_trichotomy m n with early | rfl | late
    · exact .inl early
    · cases found : t.get? (.declared m) with
      | none => rw [found] at fits; cases fits
      | some e =>
        have none := untyped e.toDraft (by rw [draft?, found]; rfl)
        rw [found, Option.any_some, Entry.isTypeNamed, none] at fits
        cases fits
    · exact .inr ⟨m, rfl, typeAfter_iff.2 ⟨late, fits⟩⟩

-- Where nothing was added later, the scope is searched as it was.
theorem findChild_before (never : ∀ m, .declared m ∈ t.children q → ¬ t.TypeAfter n name m) :
    t.findChild (Entry.isTypeNamed name) q = (t.typesBefore (.declared n) name q).getLast? := by
  rw [findChild_eq, typesBefore]
  congr 1
  refine List.filter_congr fun r child => ?_
  by_cases fits : (t.get? r).any (Entry.isTypeNamed name) = true
  · rcases before_or_after untyped fits with before | ⟨m, rfl, after⟩
    · rw [decide_eq_true before, Bool.true_and]
    · exact absurd after (never m child)
  · rw [Bool.not_eq_true] at fits
    rw [fits, Bool.and_false]

theorem findChild_after (none : t.typesBefore (.declared n) name q = [])
    (found : t.findChild (Entry.isTypeNamed name) q = some r) :
    ∃ m, r = .declared m ∧ .declared m ∈ t.children q ∧ t.TypeAfter n name m := by
  rw [findChild_eq] at found
  obtain ⟨child, fits⟩ := List.mem_filter.1 (List.mem_of_getLast? found)
  rcases before_or_after untyped fits with before | ⟨m, rfl, after⟩
  · have among := mem_typesBefore.2 ⟨child, before, fits⟩
    rw [none] at among
    cases among
  · exact ⟨m, rfl, child, after⟩

end Entry

-- The type `m` was added after the entry `n`, to the scope of the type `r` or to one that is nearer to `s`.
def Overtakes (t : Tree) (n : Nat) (s : Ref) (name : String) (r : Ref) (m : Nat) : Prop :=
  t.TypeAfter n name m ∧ ∃ outer, t.parent r = some outer ∧
    ∃ scope ∈ t.nearer s outer ++ [outer], t.parent (.declared m) = some scope

-- What was the nearest type for an entry is found again, or a type that overtakes it.
theorem Nearest.again (near : t.Nearest (.declared n) name r) (nested : Nested t)
    (place : t.parent (.declared n) = some s)
    (untyped : ∀ d, t.draft? n = some d → d.kind.isType = false) :
    (t.findType s name = some r ∧ ∀ m, ¬ t.Overtakes n s name r m) ∨
      ∃ m, t.findType s name = some (.declared m) ∧ t.Overtakes n s name r m := by
  obtain ⟨start, inner, scope, outer, stands, scopes, none, last⟩ := near
  cases place.symm.trans stands
  have home : t.parent r = some scope :=
    nested.parent_of_child (mem_typesBefore.1 (List.mem_of_getLast? last)).1
  have nearer := nested.nearer_eq scopes
  have overtakes {q : Ref} {k : Nat} (after : t.TypeAfter n name k) (within : q ∈ inner ++ [scope])
      (child : .declared k ∈ t.children q) : t.Overtakes n s name r k :=
    ⟨after, scope, home, q, by rwa [nearer], nested.mem_children.1 child⟩
  by_cases overtaken : ∃ m, t.Overtakes n s name r m
  · right
    obtain ⟨m, after, home', homed, q, among, child⟩ := overtaken
    cases home.symm.trans homed
    rw [nearer] at among
    obtain ⟨k, after', child', found⟩ := nested.findChild_later after (nested.mem_children.2 child)
    -- The search ends at the latest in the scope `q`, and what it finds in an earlier one was added later, too.
    have search {front : List Ref} (behind : List Ref) (split : t.scopes s = front ++ q :: behind)
        (before : ∀ x ∈ front, x ∈ inner) :
        ∃ m, t.findType s name = some (.declared m) ∧ t.Overtakes n s name r m := by
      have around : q ∈ t.scopes s := by rw [split]; simp
      obtain ⟨x, met, y, here, result⟩ := find_within around (by rw [found]; exact Option.some_ne_none _)
      rw [nested.nearer_eq split, List.mem_append, List.mem_singleton] at met
      rcases met with early | rfl
      · have within := before x early
        obtain ⟨l, rfl, child, after⟩ := findChild_after untyped (none x within) here
        exact ⟨l, result, overtakes after (List.mem_append_left _ within) child⟩
      · cases found.symm.trans here
        exact ⟨k, result, overtakes after' among child'⟩
    rcases List.mem_append.1 among with within | same
    · obtain ⟨front, rest, rfl⟩ := List.append_of_mem within
      exact search (rest ++ scope :: outer) (by simp [scopes]) fun x => List.mem_append_left _
    · cases List.mem_singleton.1 same
      exact search outer scopes fun _ => id
  · left
    have never (q : Ref) (within : q ∈ inner ++ [scope]) (m : Nat) (child : .declared m ∈ t.children q) :
        ¬ t.TypeAfter n name m :=
      fun after => overtaken ⟨m, overtakes after within child⟩
    refine ⟨List.findSome?_eq_some_iff.2 ⟨inner, scope, outer, scopes, ?_, fun q within => ?_⟩,
      fun m overtakes => overtaken ⟨m, overtakes⟩⟩
    · rw [findChild_before untyped (never scope (by simp)), last]
    · rw [findChild_before untyped (never q (List.mem_append_left _ within)), none q within, List.getLast?_nil]

end Scope.Tree

namespace Typing

-- The type `r` is recorded under the name in the declaration.  The same lookup in the finished tree finds it, or a
-- type that overtakes it.
def Recalled (t : Tree) (site : Site) (name : String) (r : Ref) : Prop :=
  t.Nearest (.declared site.number) name r ∧
    ((t.findType (.declared site.scope) name = some r ∧
        ∀ m, ¬ t.Overtakes site.number (.declared site.scope) name r m) ∨
      ∃ m, t.findType (.declared site.scope) name = some (.declared m) ∧
        t.Overtakes site.number (.declared site.scope) name r m)

variable {t : Tree} {site : Site} {d : Draft} {written : Surface.Expr} {r : Ref}

theorem Means.recalled (means : Means t (.declared site.number) written r) (nested : Nested t)
    (place : t.parent (.declared site.number) = some (.declared site.scope))
    (is : t.draft? site.number = some d) (untyped : d.kind.isType = false) :
    ∃ name generics, written = .ident name generics ∧ Recalled t site name r := by
  obtain ⟨name, generics, same, near⟩ := means
  refine ⟨name, generics, same, near, near.again nested place fun d' is' => ?_⟩
  cases is.symm.trans is'
  exact untyped

end Typing

open Typing

-- In the finished tree, the name that is written for the type of a variable or of a parameter finds the type
-- that was recorded, unless a type of the name was declared later in the scope of that type or in a nearer one.
-- A type in a scope is found from within before all types further outside.
theorem recorded_types_found_again {source : String} {c : Compilation} (compiled : compile source = .ok c) :
    (∀ site ∈ nodeSites 0 1 c.written, ∃ d, c.meaning.draft? site.number = some d ∧
      (∀ decl, site.declaration = .binding decl → ∀ written ∈ decl.ty, ∃ modifiers r init,
        d.kind = .binding modifiers (some r) init ∧
          ∃ name generics, written = .ident name generics ∧ Recalled c.meaning site name r) ∧
      ∀ decl, site.declaration = .function decl → ∃ static generics returnType parameters returns,
        d.kind = .function static generics returnType parameters returns ∧
          List.Forall₂ (fun p q => q.name = p.name ∧
            ∃ name generics, p.ty = .ident name generics ∧ Recalled c.meaning site name q.ty)
            decl.parameters parameters) ∧
    ∀ s inner name, inner ∈ c.meaning.scopes s → c.meaning.Has (·.IsType name) inner →
      ∃ scope ∈ c.meaning.nearer s inner ++ [inner], ∃ r ∈ c.meaning.children scope,
        c.meaning.findType s name = some r := by
  obtain ⟨nested, -, settled⟩ := compile_settled compiled
  constructor
  · intro site among
    obtain ⟨-, ⟨d, is, place, -, -, resolved⟩, -⟩ := settled site among
    refine ⟨d, is, fun decl same written type => ?_, fun decl same => ?_⟩
    · rw [same] at resolved
      cases kind : d.kind <;> rw [kind] at resolved <;> try exact resolved.elim
      case binding modifiers ty init =>
        obtain ⟨r, rfl, means⟩ := resolved.2 written type
        exact ⟨modifiers, r, init, rfl, means.recalled nested place is (by rw [kind]; rfl)⟩
    · rw [same] at resolved
      cases kind : d.kind <;> rw [kind] at resolved <;> try exact resolved.elim
      case function static generics returnType parameters returns =>
        refine ⟨static, generics, returnType, parameters, returns, rfl, resolved.2.2.imp fun p q accepted => ?_⟩
        exact ⟨accepted.2.1, accepted.2.2.recalled nested place is (by rw [kind]; rfl)⟩
  · intro s inner name around has
    have found : c.meaning.findChild (Entry.isTypeNamed name) inner ≠ none :=
      fun none => (findChild_type name).1 none has
    obtain ⟨scope, met, r, here, result⟩ := find_within around found
    rw [findChild_eq] at here
    exact ⟨scope, met, r, (List.mem_filter.1 (List.mem_of_getLast? here)).1, result⟩

-- Of two classes with one name the last one is found in the finished tree, but a variable between them has the
-- first one for its type.
theorem later_class_found :
    ∃ c decl, compile "class A; var x: A; class A;" = .ok c ∧
      ⟨2, 0, .binding decl⟩ ∈ nodeSites 0 1 c.written ∧ decl.ty = some (.plain "A") ∧
      c.meaning.draft? 2 = some ⟨"x", .binding .var (some (.declared 1)) none, false⟩ ∧
      c.meaning.findType Ref.root "A" = some (.declared 3) := by
  let x : BindingDecl := ⟨.var, "x", some (.plain "A"), none, none⟩
  have read : (compile "class A; var x: A; class A;").toOption.map
      (fun c => (c.written, c.meaning.draft? 2, c.meaning.findType Ref.root "A")) =
      some (.root [.classDecl "A" none [], .binding x, .classDecl "A" none []],
        some ⟨"x", .binding .var (some (.declared 1)) none, false⟩, some (.declared 3)) := by
    decide +kernel
  cases compiled : compile "class A; var x: A; class A;" with
  | error e => rw [compiled] at read; cases read
  | ok c =>
    rw [compiled] at read
    have same := Option.some.inj read
    have written : c.written = _ := congrArg Prod.fst same
    refine ⟨c, x, rfl, ?_, rfl, congrArg (fun all => all.2.1) same, congrArg (fun all => all.2.2) same⟩
    rw [written]
    exact .tail _ (.head _)

-- The class inside of `B` overtakes the outer one for the parameter, but not for the variable behind it.
theorem overtaken_parameter :
    ∃ c, compile "class A; class B(var p: A) { class A; var x: A; }" = .ok c ∧
      Recalled c.meaning ⟨3, 2, .function (Grammar.constructorDecl [⟨.var, "p", .plain "A"⟩])⟩ "A"
        (.declared 1) ∧
      c.meaning.findType (.declared 2) "A" = some (.declared 4) ∧
      ∃ r ∈ c.meaning.children (.declared 2), c.meaning.findType (.declared 2) "A" = some r := by
  let p : Surface.Parameter := ⟨.var, "p", .plain "A"⟩
  let x : BindingDecl := ⟨.var, "x", some (.plain "A"), none, none⟩
  let m : Tree := ((((Tree.empty.push 0 ⟨"A", .classDecl [], false⟩).push 0 ⟨"B", .classDecl [], false⟩).push 2
    ⟨".ctor", .function false [] none [⟨.var, "p", .declared 1⟩] [], false⟩).push 2
    ⟨"A", .classDecl [], false⟩).push 2 ⟨"x", .binding .var (some (.declared 4)) none, false⟩
  have read : (compile "class A; class B(var p: A) { class A; var x: A; }").toOption.map
      (fun c => (c.written, c.meaning)) = some (.root [.classDecl "A" none [], .classDecl "B" none
        [.function (Grammar.constructorDecl [p]), .classDecl "A" none [], .binding x]], m) := by
    decide +kernel
  cases compiled : compile "class A; class B(var p: A) { class A; var x: A; }" with
  | error e => rw [compiled] at read; cases read
  | ok c =>
    rw [compiled] at read
    have same := Option.some.inj read
    have written : c.written = _ := congrArg Prod.fst same
    have means : c.meaning = m := congrArg Prod.snd same
    obtain ⟨recorded, within⟩ := recorded_types_found_again compiled
    refine ⟨c, rfl, ?_⟩
    rw [written, means] at recorded
    rw [means] at within ⊢
    obtain ⟨d, is, -, function⟩ :=
      recorded ⟨3, 2, .function (Grammar.constructorDecl [p])⟩ (.tail _ (.tail _ (.head _)))
    cases (show m.draft? 3 = some _ by rfl).symm.trans is
    obtain ⟨_, _, _, _, _, kind, parameters⟩ := function _ rfl
    cases kind
    obtain ⟨⟨-, _, _, name, recalled⟩, -⟩ := List.forall₂_cons.1 parameters
    cases name
    obtain ⟨d', is', binding, -⟩ :=
      recorded ⟨5, 2, .binding x⟩ (.tail _ (.tail _ (.tail _ (.tail _ (.head _)))))
    cases (show m.draft? 5 = some _ by rfl).symm.trans is'
    obtain ⟨_, _, _, kind, _, _, name, -, again⟩ := binding x rfl _ rfl
    cases kind
    cases name
    refine ⟨recalled, ?_, ?_⟩
    · rcases again with ⟨found, -⟩ | ⟨k, -, ⟨late, _, after, -⟩, -⟩
      · exact found
      · exact absurd (Scope.Tree.draft?_lt after) (Nat.not_lt.2 late)
    · obtain ⟨scope, met, r, child, found⟩ := within (.declared 2) (.declared 2) "A" (by decide +kernel)
        ⟨.declared 4, by decide +kernel, _, rfl, rfl, rfl⟩
      rw [show m.nearer (.declared 2) (.declared 2) = [] by decide +kernel, List.nil_append,
        List.mem_singleton] at met
      exact ⟨r, met ▸ child, found⟩

end Frontend
