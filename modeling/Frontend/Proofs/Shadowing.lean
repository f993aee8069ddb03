import Frontend.Proofs.Structure

-- What an added entry does to lookups.  It is found from the scopes in which it becomes the last entry that
-- fits in the nearest scope with such an entry.  All other lookups, and the places of all other entries, stay
-- as they are.

namespace Frontend.Scope

def Draft.IsType (name : String) (d : Draft) : Prop := d.kind.isType = true ∧ d.name = name

def Draft.IsFunction (name : String) (types : List Ref) (d : Draft) : Prop :=
  d.name = name ∧ ∃ static generics returnType parameters returns,
    d.kind = .function static generics returnType parameters returns ∧ parameters.map Parameter.ty = types

theorem Draft.isType_iff {name : String} {d : Draft} : (d.kind.isType && d.name == name) = true ↔ d.IsType name := by
  simp [IsType]

namespace Tree

-- An entry of the scope itself fits.
def Has (t : Tree) (fits : Draft → Prop) (scope : Ref) : Prop :=
  ∃ child ∈ t.children scope, ∃ e, t.get? child = some e ∧ fits e.toDraft

-- The entry `d`, added to the scope `p`, hides all entries that fit and were found from `s` before.
def Hides (t : Tree) (p : Nat) (d : Draft) (fits : Draft → Prop) (s : Ref) : Prop :=
  fits d ∧ .declared p ∈ t.scopes s ∧ ∀ scope ∈ t.nearer s (.declared p), ¬ t.Has fits scope

variable {t : Tree} {p : Nat} {d : Draft} {s : Ref} {fits : Draft → Prop}

theorem findChild_none_iff (test : Draft → Bool) (same : ∀ d, test d = true ↔ fits d) :
    t.findChild (test ·.toDraft) s = none ↔ ¬ t.Has fits s := by
  rw [findChild, List.find?_eq_none, Has, not_exists]
  refine forall_congr' fun child => ?_
  rw [List.mem_reverse, not_and]
  refine imp_congr_right fun _ => not_congr ?_
  cases t.get? child with
  | none => simp
  | some e => simp [same]

theorem findChild_type (name : String) :
    t.findChild (Entry.isTypeNamed name) s = none ↔ ¬ t.Has (·.IsType name) s :=
  findChild_none_iff (fun d => d.kind.isType && d.name == name) fun _ => Draft.isType_iff

section Push

variable (nested : Nested t) (within : p < t.size) (known : t.contains s)

include nested within known

theorem find_push_iff (test : Draft → Bool) (same : ∀ d, test d = true ↔ fits d) :
    ((t.push p d).find (test ·.toDraft) s = some (.declared t.size) ↔ t.Hides p d fits s) ∧
    (¬ t.Hides p d fits s → (t.push p d).find (test ·.toDraft) s = t.find (test ·.toDraft) s) := by
  have hides : (test d = true ∧ .declared p ∈ t.scopes s ∧
      ∀ scope ∈ t.nearer s (.declared p), t.findChild (test ·.toDraft) scope = none) ↔
      t.Hides p d fits s := by
    rw [Hides, same]
    refine and_congr_right fun _ => and_congr_right fun _ => ?_
    exact forall₂_congr fun scope _ => findChild_none_iff test same
  -- What was found before was there before.
  have fresh : t.find (test ·.toDraft) s ≠ some (.declared t.size) := by
    intro found
    obtain ⟨e, there, -⟩ := find_fits found
    exact Nat.lt_irrefl _ (contains_declared.1 (by rw [contains, there]; rfl))
  rw [find_push nested within known test, ← hides]
  refine ⟨?_, fun not => if_neg not⟩
  split
  · next all => exact iff_of_true rfl all
  · next not => exact iff_of_false fresh not

theorem findType_push_iff (name : String) :
    ((t.push p d).findType s name = some (.declared t.size) ↔ t.Hides p d (·.IsType name) s) ∧
    (¬ t.Hides p d (·.IsType name) s → (t.push p d).findType s name = t.findType s name) :=
  find_push_iff nested within known (fun d => d.kind.isType && d.name == name) fun _ => Draft.isType_iff

theorem findFunction_push_iff (name : String) (types : List Ref) :
    ((t.push p d).findFunction s name types = some (.declared t.size) ↔
      t.Hides p d (·.IsFunction name types) s) ∧
    (¬ t.Hides p d (·.IsFunction name types) s →
      (t.push p d).findFunction s name types = t.findFunction s name types) := by
  refine find_push_iff nested within known (fun d => Entry.isFunctionNamed name types ⟨d, none, []⟩) fun d => ?_
  obtain ⟨called, kind, internal⟩ := d
  cases kind <;> simp [Entry.isFunctionNamed, Draft.IsFunction]

end Push

-- Of all lookups, an addition changes those for which the entry becomes the last one that fits in the nearest
-- scope that has one.  No other entry moves.
theorem add_shadows (grown : Grown t) (within : p < t.size) (d : Draft) :
    ∃ t', t.add (.declared p) d = .ok (.declared t.size, t') ∧ ∀ s, t.contains s →
      (∀ name, (t'.findType s name = some (.declared t.size) ↔ t.Hides p d (·.IsType name) s) ∧
        (¬ t.Hides p d (·.IsType name) s → t'.findType s name = t.findType s name)) ∧
      (∀ name types,
        (t'.findFunction s name types = some (.declared t.size) ↔ t.Hides p d (·.IsFunction name types) s) ∧
        (¬ t.Hides p d (·.IsFunction name types) s →
          t'.findFunction s name types = t.findFunction s name types)) ∧
      t'.parent s = t.parent s ∧ t'.scopes s = t.scopes s := by
  have nested := grown.nested
  refine ⟨t.push p d, ?_, fun s known => ⟨findType_push_iff nested within known,
    findFunction_push_iff nested within known, parent_push_known known, scopes_push nested s known⟩⟩
  rw [add, editable, if_pos within]
  rfl

-- From within a class its own type is found, and from outside of it the outer one is found as before.
theorem inner_class_shadows : ∃ t t' : Tree, t.add (.declared 2) ⟨"T", .classDecl [], false⟩ =
      .ok (.declared 3, t') ∧ t.findType (.declared 2) "T" = some (.declared 1) ∧
    t'.findType (.declared 2) "T" = some (.declared 3) ∧ t'.findType Ref.root "T" = some (.declared 1) ∧
    t'.findFunction (.declared 2) "T" [] = none ∧ t'.parent (.declared 2) = some Ref.root := by
  let outer : Tree := empty.push 0 ⟨"T", .classDecl [], false⟩
  let t : Tree := outer.push 0 ⟨"A", .classDecl [], false⟩
  have first : empty.add Ref.root ⟨"T", .classDecl [], false⟩ = .ok (.declared 1, outer) := rfl
  have second : outer.add Ref.root ⟨"A", .classDecl [], false⟩ = .ok (.declared 2, t) := rfl
  have grown : Grown t := (Grown.empty.add first).add second
  obtain ⟨t', added, effect⟩ := add_shadows grown (p := 2) (by decide) ⟨"T", .classDecl [], false⟩
  obtain ⟨types, functions, parent, -⟩ := effect (.declared 2) rfl
  obtain ⟨outside, -⟩ := effect Ref.root rfl
  refine ⟨t, t', added, by decide +kernel, (types "T").1.2 ⟨⟨rfl, rfl⟩, by decide +kernel, ?_⟩,
    ((outside "T").2 fun hides => ?_).trans (by decide +kernel),
    ((functions "T" []).2 fun hides => ?_).trans (by decide +kernel), parent⟩
  · rw [show t.nearer (.declared 2) (.declared 2) = [] by decide +kernel]
    exact nofun
  · exact absurd hides.2.1 (by decide +kernel)
  · obtain ⟨-, _, _, _, _, _, same, -⟩ := hides.1
    cases same

end Tree

end Frontend.Scope
