import Frontend.Proofs.Entering

-- How a tree grows while declarations are entered.  The entries that were there stay what they are.  The new
-- ones are numbered in the order in which the declarations are written, each before what it contains, and show
-- what was declared.

namespace Frontend.Typing

open Scope (Draft Kind Ref Tree TypedExpr)
open Scope.Tree
open Surface (BindingDecl FunctionDecl Node)

theorem within_push {t : Tree} {d : Draft} {scope n : Nat} (within : scope < t.size) :
    scope < (t.push n d).size := by
  rw [size_push]
  exact Nat.lt_succ_of_lt within

-- The entries of the first tree are in the second one too, in the same scopes.
structure Kept (t t' : Tree) : Prop where
  size : t.size ≤ t'.size
  draft? : ∀ n < t.size, t'.draft? n = t.draft? n
  parent : ∀ n < t.size, t'.parent (.declared n) = t.parent (.declared n)

namespace Kept

variable {t t' t'' : Tree} {d : Draft} {f : Draft → Draft} {scope k : Nat}

theorem refl : Kept t t := ⟨Nat.le_refl _, fun _ _ => rfl, fun _ _ => rfl⟩

theorem trans (first : Kept t t') (second : Kept t' t'') : Kept t t'' where
  size := Nat.le_trans first.size second.size
  draft? n small :=
    (second.draft? n (Nat.lt_of_lt_of_le small first.size)).trans (first.draft? n small)
  parent n small :=
    (second.parent n (Nat.lt_of_lt_of_le small first.size)).trans (first.parent n small)

theorem push : Kept t (t.push scope d) where
  size := by simp
  draft? n small := by rw [draft?_push, if_neg (Nat.ne_of_lt small)]
  parent n small := by rw [parent_push, if_neg (Nat.ne_of_lt small)]

theorem modify (kept : Kept t t') (new : t.size ≤ k) : Kept t (t'.modify k f) where
  size := by simpa using kept.size
  draft? n small := by
    have other : n ≠ k := by omega
    rw [draft?_modify, if_neg other]
    exact kept.draft? n small
  parent n small := by
    rw [parent_modify]
    exact kept.parent n small

-- The entry that was just added.
theorem draft?_pushed (kept : Kept (t.push scope d) t') : t'.draft? t.size = some d := by
  have new : t.size < (t.push scope d).size := by simp
  rw [kept.draft? _ new, draft?_push, if_pos rfl]

theorem parent_pushed (kept : Kept (t.push scope d) t') :
    t'.parent (.declared t.size) = some (.declared scope) := by
  have new : t.size < (t.push scope d).size := by simp
  rw [kept.parent _ new, parent_push, if_pos rfl]

-- It is changed when its inside has been entered.
theorem draft?_entered (kept : Kept (t.push scope d) t') :
    (t'.modify t.size f).draft? t.size = some (f d) := by
  rw [draft?_modify, if_pos rfl, kept.draft?_pushed]
  rfl

theorem parent_entered (kept : Kept (t.push scope d) t') :
    (t'.modify t.size f).parent (.declared t.size) = some (.declared scope) :=
  parent_modify.trans kept.parent_pushed

end Kept

variable {task : Task} {scope : Nat} {t t' : Tree}

theorem Enters.kept (enters : Enters task scope t t') : Kept t t' := by
  induction enters with
  | none | memberless | bodyEnd => exact .refl
  | more _ _ first others | bodyBinding _ _ first others => exact first.trans others
  | enumeration _ kept | classDecl _ kept | member _ _ kept => exact Kept.push.trans kept
  | plain => exact .push
  | accessor _ _ _ _ _ kept | function _ _ _ kept =>
    exact (Kept.push.trans kept).modify (Nat.le_refl _)
  | standing _ kept | bodyReturn _ _ _ kept => exact kept

theorem Enters.nested (enters : Enters task scope t t') (within : scope < t.size)
    (nested : Nested t) : Nested t' := by
  induction enters with
  | none | memberless | bodyEnd => exact nested
  | more enters _ first others | bodyBinding enters _ first others =>
    exact others (Nat.lt_of_lt_of_le within enters.kept.size) (first within nested)
  | enumeration _ inner | classDecl _ inner => exact inner (by simp) (nested.push within)
  | member _ _ others => exact others (within_push within) (nested.push within)
  | plain => exact nested.push within
  | accessor _ _ _ _ _ getter =>
    exact (getter (within_push within) (nested.push within)).modify
  | function _ _ _ body => exact (body (by simp) (nested.push within)).modify
  | standing _ inner | bodyReturn _ _ _ inner => exact inner within nested

inductive Declaration where
  | enumeration (name : String)
  | member (decl : BindingDecl)
  | classDecl (name : String) (generics : Option (List String))
  | binding (decl : BindingDecl)
  | function (decl : FunctionDecl)

-- A declaration, with the number that is due to its entry and that of its scope.
structure Site where
  number : Nat
  scope : Nat
  declaration : Declaration

def memberSites (scope : Nat) : Nat → List Node → List Site
  | _, [] => []
  | next, .binding decl :: others => ⟨next, scope, .member decl⟩ :: memberSites scope (next + 1) others
  | next, _ :: others => memberSites scope next others

mutual

-- The declarations in a node; `next` is the first number that is free.
def nodeSites (scope next : Nat) : Node → List Site
  | .enumeration name members => ⟨next, scope, .enumeration name⟩ :: memberSites next (next + 1) members
  | .classDecl name generics children =>
    ⟨next, scope, .classDecl name generics⟩ :: sites next (next + 1) children
  | .binding decl => bindingSites scope next decl
  | .function decl => functionSites scope next decl
  | .root children => sites scope next children
  | .ret _ => []

def sites (scope next : Nat) : List Node → List Site
  | [] => []
  | node :: nodes =>
    let first := nodeSites scope next node
    first ++ sites scope (next + first.length) nodes

def bindingSites (scope next : Nat) : BindingDecl → List Site
  | ⟨modifiers, name, ty, init, getter⟩ =>
    ⟨next, scope, .binding ⟨modifiers, name, ty, init, getter⟩⟩ :: getterSites scope (next + 1) getter

def getterSites (scope next : Nat) : Option FunctionDecl → List Site
  | none => []
  | some decl => functionSites scope next decl

def functionSites (scope next : Nat) : FunctionDecl → List Site
  | ⟨static, name, returnType, parameters, internal, children⟩ =>
    ⟨next, scope, .function ⟨static, name, returnType, parameters, internal, children⟩⟩ ::
      sites next (next + 1) children

end

def Task.sites (scope next : Nat) : Task → List Site
  | .node written => nodeSites scope next written
  | .nodes written | .body _ _ _ written => Typing.sites scope next written
  | .members _ written => memberSites scope next written
  | .function decl => functionSites scope next decl

theorem Enters.size (enters : Enters task scope t t') :
    t'.size = t.size + (task.sites scope t.size).length := by
  induction enters with
  | none | bodyEnd => simp [Task.sites, sites]
  | memberless => simp [Task.sites, memberSites]
  | more _ _ first others | bodyBinding _ _ first others =>
    simp only [Task.sites, sites, List.length_append] at *
    rw [others, first, Nat.add_assoc]
  | enumeration _ inner | classDecl _ inner | member _ _ inner =>
    simp only [Task.sites, nodeSites, memberSites, List.length_cons, size_push] at *
    omega
  | plain => simp [Task.sites, nodeSites, bindingSites, getterSites]
  | accessor _ _ _ _ _ inner | function _ _ _ inner =>
    simp only [Task.sites, nodeSites, bindingSites, getterSites, functionSites, List.length_cons,
      size_push, size_modify] at *
    omega
  | standing _ inner => exact inner
  | bodyReturn _ _ _ inner => simpa [Task.sites, sites, nodeSites] using inner

end Frontend.Typing
