import Frontend.Proofs.PrintedMeanings

-- Comparing entries, and comparing programs.  On the entries of scope trees in which no number is a NaN,
-- similarity is an equivalence.  Programs with one written form are similar both ways.

namespace Frontend

open Scope (Ref Tree)
open Typing (compile_meant)

namespace Scope.Tree

theorem similar_comm (t u : Tree) (a b : Ref) : t.similar a u b = u.similar b t a := by
  rw [Bool.eq_iff_iff, similar_iff, similar_iff]
  exact ⟨Bisimilar.symm, Bisimilar.symm⟩

theorem similar_trans {t u v : Tree} {a b c : Ref} (first : t.similar a u b = true)
    (second : u.similar b v c = true) : t.similar a v c = true := by
  rw [similar_iff] at first second ⊢
  exact first.trans second

theorem similar_self {t : Tree} {a : Ref} (whole : t.Whole) (numeric : t.NaNFree) (known : t.contains a) :
    t.similar a t a = true :=
  (similar_iff a a).2 (whole.bisimilar_self numeric known)

end Scope.Tree

-- What a program means is told by what is written.
theorem compile_meaning {source source' : String} {c c' : Compilation} (compiled : compile source = .ok c)
    (compiled' : compile source' = .ok c') (same : c.written = c'.written) : c.meaning = c'.meaning := by
  have typed := (compile_eq_ok.1 compiled).2
  have typed' := (compile_eq_ok.1 compiled').2
  rw [same] at typed
  exact Except.ok.inj (typed.symm.trans typed')

-- Similarity is symmetric and transitive.  It is reflexive where all that an entry leads to is in the tree and
-- has no NaN; in the trees of programs it is.
theorem similar_equivalence :
    (∀ (t u : Tree) (a b : Ref), t.similar a u b = u.similar b t a) ∧
    (∀ (t u v : Tree) (a b c : Ref), t.similar a u b = true → u.similar b v c = true →
      t.similar a v c = true) ∧
    (∀ (t : Tree) (a : Ref), t.similar a t a = true ↔
      ∀ b, Relation.ReflTransGen t.Mentions a b → t.Numeric b) ∧
    (∀ (t : Tree) (a : Ref), t.Whole → t.NaNFree → t.contains a → t.similar a t a = true) ∧
    ∀ (source source' : String) (c c' : Compilation), compile source = .ok c → compile source' = .ok c' →
      c.meaning.Whole ∧ c.meaning.NaNFree ∧
        (c.written = c'.written → c.meaning.similar Ref.root c'.meaning Ref.root = true ∧
          c'.meaning.similar Ref.root c.meaning Ref.root = true) := by
  refine ⟨Tree.similar_comm, fun _ _ _ _ _ _ => Tree.similar_trans,
    fun t a => (Tree.similar_iff a a).trans Tree.bisimilar_self_iff, fun _ _ => Tree.similar_self, ?_⟩
  intro source source' c c' compiled compiled'
  have meant := compile_meant compiled
  refine ⟨meant.whole, meant.nanFree, fun same => ?_⟩
  rw [← compile_meaning compiled compiled' same, and_self, Tree.similar_iff]
  exact meant.similar_self

theorem enums_compared :
    ∃ a b, compile "enum E { m } var x: E; val y = 1.5;" = .ok a ∧
      compile "enum E { m, } var x: E; val y = 1.50;" = .ok b ∧ a.written = b.written ∧
      b.meaning.similar Ref.root a.meaning Ref.root = true ∧
      a.meaning.similar Ref.root a.meaning Ref.root = true ∧
      a.meaning.similar (.declared 1) a.meaning (.declared 1) = true := by
  have alike : (compile "enum E { m } var x: E; val y = 1.5;").toOption.map Compilation.written =
      (compile "enum E { m, } var x: E; val y = 1.50;").toOption.map Compilation.written := by
    decide +kernel
  have size : (compile "enum E { m } var x: E; val y = 1.5;").toOption.map
      (fun c => decide (1 < c.meaning.size)) = some true := by
    decide +kernel
  cases left : compile "enum E { m } var x: E; val y = 1.5;" with
  | error e => rw [left] at size; cases size
  | ok a =>
    rw [left] at alike size
    cases right : compile "enum E { m, } var x: E; val y = 1.50;" with
    | error e => rw [right] at alike; cases alike
    | ok b =>
      rw [right] at alike
      have same : a.written = b.written := Option.some.inj alike
      have inside : 1 < a.meaning.size := of_decide_eq_true (Option.some.inj size)
      obtain ⟨-, trans, -, self, programs⟩ := similar_equivalence
      obtain ⟨whole, numeric, both⟩ := programs _ _ a b left right
      obtain ⟨forth, back⟩ := both same
      exact ⟨a, b, rfl, rfl, same, back, trans _ _ _ _ _ _ forth back,
        self _ _ whole numeric (Scope.Tree.contains_declared.2 inside)⟩

end Frontend
