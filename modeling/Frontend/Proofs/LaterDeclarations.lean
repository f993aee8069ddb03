import Frontend.Proofs.Growth

-- Declarations do not change what earlier ones mean.  Entering a declaration adds entries, and adds to the
-- children of the scope; all other entries stay what they are.  So the tree of the first declarations of a
-- program is the first part of the tree of them all.

namespace Frontend

open Scope (Draft Entry Ref Tree)
open Scope.Tree
open Surface (FunctionDecl Node)

namespace Typing

variable {task : Task} {scope k n : Nat} {t t' t'' : Tree} {d : Draft} {f : Draft → Draft}

def withChildren (later : List Nat) (e : Entry) : Entry :=
  { e with children := e.children ++ later.map .declared }

theorem withChildren_nil (e : Entry) : withChildren [] e = e := by
  rw [withChildren, List.map_nil, List.append_nil]

theorem withChildren_append (first second : List Nat) (e : Entry) :
    withChildren second (withChildren first e) = withChildren (first ++ second) e := by
  simp only [withChildren, List.append_assoc, List.map_append]

-- The second tree has all the entries of the first one.  Only the scope may have gained children, and
-- they are new.
structure Extends (scope : Nat) (t t' : Tree) : Prop where
  size : t.size ≤ t'.size
  others : ∀ n < t.size, n ≠ scope → t'.get? (.declared n) = t.get? (.declared n)
  children : ∃ later : List Nat, (∀ n ∈ later, t.size ≤ n ∧ n < t'.size) ∧
    t'.get? (.declared scope) = (t.get? (.declared scope)).map (withChildren later)

namespace Extends

theorem refl : Extends scope t t where
  size := Nat.le_refl _
  others _ _ _ := rfl
  children := by
    refine ⟨[], List.forall_mem_nil _, ?_⟩
    rw [funext withChildren_nil, Option.map_id']

theorem trans (first : Extends scope t t') (second : Extends scope t' t'') : Extends scope t t'' where
  size := Nat.le_trans first.size second.size
  others n small other :=
    (second.others n (Nat.lt_of_lt_of_le small first.size) other).trans (first.others n small other)
  children := by
    obtain ⟨before, new, gained⟩ := first.children
    obtain ⟨after, newer, gained'⟩ := second.children
    refine ⟨before ++ after, fun n member => ?_, ?_⟩
    · rcases List.mem_append.1 member with inFirst | inSecond
      · exact ⟨(new n inFirst).1, Nat.lt_of_lt_of_le (new n inFirst).2 second.size⟩
      · exact ⟨Nat.le_trans first.size (newer n inSecond).1, (newer n inSecond).2⟩
    · rw [gained', gained, Option.map_map]
      congr 1
      funext e
      exact withChildren_append before after e

theorem push (within : scope < t.size) : Extends scope t (t.push scope d) where
  size := by simp
  others n small other := by
    rw [get?_push, if_neg (Nat.ne_of_lt small)]
    simp only [if_neg other, Option.map_id']
  children := by
    refine ⟨[t.size], by simp, ?_⟩
    rw [get?_push, if_neg (Nat.ne_of_lt within)]
    simp only [if_true]
    rfl

-- What happens in a new entry is nothing to the old ones.
theorem inside (first : Extends scope t t') (within : scope < t.size) (new : t.size ≤ k)
    (second : Extends k t' t'') : Extends scope t t'' where
  size := Nat.le_trans first.size second.size
  others n small other := by
    rw [second.others n (Nat.lt_of_lt_of_le small first.size) (by omega)]
    exact first.others n small other
  children := by
    obtain ⟨later, fresh, gained⟩ := first.children
    refine ⟨later, fun n member => ⟨(fresh n member).1, Nat.lt_of_lt_of_le (fresh n member).2 second.size⟩, ?_⟩
    rw [second.others scope (Nat.lt_of_lt_of_le within first.size) (by omega), gained]

theorem modify (extend : Extends scope t t') (within : scope < t.size) (new : t.size ≤ k) :
    Extends scope t (t'.modify k f) where
  size := by simpa using extend.size
  others n small other := by
    have old : n ≠ k := by omega
    rw [get?_modify]
    simp only [if_neg old, Option.map_id']
    exact extend.others n small other
  children := by
    have old : scope ≠ k := by omega
    rw [get?_modify, size_modify]
    simp only [if_neg old, Option.map_id']
    exact extend.children

end Extends

-- Whatever is entered, the entries that were there stay what they are.
theorem Enters.extends (enters : Enters task scope t t') (within : scope < t.size) : Extends scope t t' := by
  induction enters with
  | none | memberless | bodyEnd => exact .refl
  | more enters _ first others | bodyBinding enters _ first others =>
    exact (first within).trans (others (Nat.lt_of_lt_of_le within enters.kept.size))
  | enumeration _ inner | classDecl _ inner =>
    exact (Extends.push within).inside within (Nat.le_refl _) (inner (by simp))
  | member _ _ others => exact (Extends.push within).trans (others (within_push within))
  | plain => exact .push within
  | accessor _ _ _ _ _ getter =>
    have entered := (Extends.push within).trans (getter (within_push within))
    exact entered.modify within (Nat.le_refl _)
  | function _ _ _ body =>
    have entered := (Extends.push within).inside within (Nat.le_refl _) (body (by simp))
    exact entered.modify within (Nat.le_refl _)
  | standing _ inner | bodyReturn _ _ _ inner => exact inner within

theorem declareAll_append (scope : Nat) (ys : List Node) : ∀ (xs : List Node) (t : Tree),
    declareAll t scope (xs ++ ys) = declareAll t scope xs >>= fun t' => declareAll t' scope ys
  | [], _ => rfl
  | x :: xs, t => by
    rw [List.cons_append, declareAll, declareAll, bind_assoc]
    congr 1
    funext between
    exact declareAll_append scope ys xs between

end Typing

open Typing

-- More declarations at the end of a program change nothing in what the ones before them mean.
--
-- What goes wrong first goes wrong still.  Where nothing does, the entries of the first declarations are
-- the first entries of them all, number by number, but for the children that the root gains.
theorem earlier_entries_unchanged (xs ys : List Node) :
    (∀ e, typeProgram (.root xs) = .error e → typeProgram (.root (xs ++ ys)) = .error e) ∧
    ∀ t, typeProgram (.root (xs ++ ys)) = .ok t → ∃ s, typeProgram (.root xs) = .ok s ∧
      s.size ≤ t.size ∧
      (∀ n, 0 < n → n < s.size → t.get? (.declared n) = s.get? (.declared n)) ∧
      ∃ (top : Entry) (later : List Ref), s.get? Ref.root = some top ∧
        t.get? Ref.root = some { top with children := top.children ++ later } := by
  have parts : typeProgram (.root (xs ++ ys)) =
      typeProgram (.root xs) >>= fun s => declareAll s 0 ys := declareAll_append 0 ys xs Tree.empty
  rw [parts]
  refine ⟨fun e failed => by rw [failed]; rfl, fun t typed => ?_⟩
  obtain ⟨s, first, others⟩ := bind_eq_ok.1 typed
  have extend := (declareAll_enters ys others).extends s.rooted
  obtain ⟨later, -, gained⟩ := extend.children
  obtain ⟨top, rooted⟩ := Option.isSome_iff_exists.1 (get?_isSome.2 s.rooted)
  rw [rooted] at gained
  exact ⟨s, first, extend.size, fun n positive small => extend.others n small (Nat.ne_of_gt positive), top,
    later.map .declared, rooted, gained⟩

-- A function and a second class behind a class with a getter are three, and they are children of the root.
theorem getter_unchanged_by_later_class :
    let getter : FunctionDecl :=
      ⟨false, "get_a", some (.plain "Integer"), [], true, [.ret (.literal (.integer 1))]⟩
    let inside : Node := .binding ⟨.var, "a", some (.plain "Integer"), none, some getter⟩
    let xs : List Node := [.classDecl "A" none [inside]]
    let ys : List Node :=
      [.function ⟨true, "f", none, [⟨.var, "x", .plain "A"⟩], false, []⟩, .classDecl "A" (some ["T"]) []]
    typeProgram (.root ([.ret (.literal (.integer 1))] ++ xs)) =
        .error (.unsupportedDeclaration "return statement") ∧
      ∃ s t, typeProgram (.root xs) = .ok s ∧ typeProgram (.root (xs ++ ys)) = .ok t ∧
        s.size = 4 ∧ t.size = 6 ∧
        (∀ n, 0 < n → n < s.size → t.get? (.declared n) = s.get? (.declared n)) ∧
        ∃ (top : Entry) (later : List Ref), s.get? Ref.root = some top ∧
          t.get? Ref.root = some { top with children := top.children ++ later } := by
  intro getter inside xs ys
  have sizes : (typeProgram (.root xs)).toOption.map Tree.size = some 4 ∧
      (typeProgram (.root (xs ++ ys))).toOption.map Tree.size = some 6 := by
    decide +kernel
  refine ⟨(earlier_entries_unchanged [.ret (.literal (.integer 1))] xs).1 _ rfl, ?_⟩
  cases typed : typeProgram (.root (xs ++ ys)) with
  | error e => rw [typed] at sizes; cases sizes.2
  | ok t =>
    obtain ⟨s, first, -, same, gained⟩ := (earlier_entries_unchanged xs ys).2 t typed
    rw [first, typed] at sizes
    exact ⟨s, t, first, rfl, Option.some.inj sizes.1, Option.some.inj sizes.2, same, gained⟩

end Frontend
