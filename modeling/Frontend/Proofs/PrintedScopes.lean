import Frontend.Proofs.ScopeTexts

-- Two scope trees are printed alike if and only if their branches agree one by one, up to the names of what
-- they refer to.

namespace Frontend.Scope

open Text
open Surface (lead)

variable {t u : Tree}

mutual

def Branch.Shown (t : Tree) : Branch → Prop
  | .node _ entry branches => entry.toDraft.Shown t ∧ Branch.ShownAll t branches

def Branch.ShownAll (t : Tree) : List Branch → Prop
  | [] => True
  | b :: bs => b.Shown t ∧ Branch.ShownAll t bs

end

mutual

inductive Branch.Alike (t u : Tree) : Branch → Branch → Prop where
  | node {m n : Nat} {e f : Entry} {bs cs : List Branch} : e.toDraft.Alike t u f.toDraft →
      Branch.AlikeAll t u bs cs → Branch.Alike t u (.node m e bs) (.node n f cs)

inductive Branch.AlikeAll (t u : Tree) : List Branch → List Branch → Prop where
  | nil : Branch.AlikeAll t u [] []
  | cons {b c : Branch} {bs cs : List Branch} : Branch.Alike t u b c → Branch.AlikeAll t u bs cs →
      Branch.AlikeAll t u (b :: bs) (c :: cs)

end

def showsValue (b : Block) : Bool :=
  ["int", "double", "string", "bool", "binary"].any fun word => lead b.text == word.toList

def showsReturn (b : Block) : Bool := lead b.text == "return".toList

theorem showsValue_expr (e : TypedExpr) : showsValue (e.block t) = true := by
  have forms : e.form ∈ ["int", "double", "string", "bool", "binary"] := by
    cases e with
    | literal v _ => cases v <;> simp [TypedExpr.form, Value.kindWord]
    | binary _ _ _ _ => simp [TypedExpr.form]
  rw [showsValue, e.lead_block]
  exact List.any_eq_true.2 ⟨e.form, forms, beq_self_eq_true _⟩

theorem showsValue_return (e : TypedExpr) : showsValue (returnBlock t e) = false := by
  rw [showsValue, returnBlock, Block.text]
  decide

theorem showsReturn_return (e : TypedExpr) : showsReturn (returnBlock t e) = true := by
  rw [showsReturn, returnBlock, Block.text]
  decide

theorem shows_entry {b : Branch} (shown : b.Shown t) :
    showsValue (b.block t) = false ∧ showsReturn (b.block t) = false := by
  obtain ⟨n, entry, branches⟩ := b
  have head : lead (Block.text (Branch.block t (.node n entry branches))) =
      entry.toDraft.form.toList := by
    rw [Branch.block, Block.text]
    exact shown.1.legible.lead_text
  have forms : entry.toDraft.form ∈ ["root", "enum", "class", "val", "var", "function"] := by
    unfold Draft.form
    split <;> try split
    all_goals decide
  have table : ∀ form ∈ ["root", "enum", "class", "val", "var", "function"],
      (["int", "double", "string", "bool", "binary"].any fun word => form.toList == word.toList) = false ∧
        (form.toList == "return".toList) = false := by
    decide
  rw [showsValue, showsReturn, head]
  exact table _ forms

theorem blocks_shown {b : Block} : ∀ {bs : List Branch}, Branch.ShownAll t bs → b ∈ Branch.blocks t bs →
    showsValue b = false ∧ showsReturn b = false
  | [], _, member => by
    rw [Branch.blocks] at member
    cases member
  | c :: bs, shown, member => by
    rw [Branch.blocks] at member
    rcases List.mem_cons.1 member with rfl | later
    · exact shows_entry shown.1
    · exact blocks_shown shown.2 later

-- Values come first, then the entries inside, then what is given back.
theorem inner_unique {kind kind' : Kind} {bs cs : List Branch} (shown : Branch.ShownAll t bs)
    (shown' : Branch.ShownAll u cs)
    (same : kind.initBlocks t ++ (Branch.blocks t bs ++ kind.returnBlocks t) =
      kind'.initBlocks u ++ (Branch.blocks u cs ++ kind'.returnBlocks u)) :
    kind.initBlocks t = kind'.initBlocks u ∧ Branch.blocks t bs = Branch.blocks u cs ∧
      kind.returnBlocks t = kind'.returnBlocks u := by
  have inits {t : Tree} {kind : Kind} : ∀ b ∈ kind.initBlocks t, showsValue b = true := by
    intro b member
    unfold Kind.initBlocks at member
    split at member
    · obtain ⟨e, -, rfl⟩ := List.mem_map.1 member
      exact showsValue_expr e
    · cases member
  have returns {t : Tree} {kind : Kind} : ∀ b ∈ kind.returnBlocks t,
      showsValue b = false ∧ showsReturn b = true := by
    intro b member
    obtain ⟨e, -, rfl⟩ := List.mem_map.1 member
    exact ⟨showsValue_return e, showsReturn_return e⟩
  have behind {t : Tree} {kind : Kind} {bs : List Branch} (shown : Branch.ShownAll t bs) :
      ∀ b ∈ (Branch.blocks t bs ++ kind.returnBlocks t).head?, showsValue b = false := by
    intro b first
    rcases List.mem_append.1 (List.mem_of_mem_head? first) with inside | given
    · exact (blocks_shown shown inside).1
    · exact (returns b given).1
  have entries {t : Tree} {bs : List Branch} (shown : Branch.ShownAll t bs) :
      ∀ b ∈ Branch.blocks t bs, (!showsReturn b) = true :=
    fun b inside => by rw [(blocks_shown shown inside).2]; rfl
  have ends {t : Tree} {kind : Kind} : ∀ b ∈ (kind.returnBlocks t).head?, (!showsReturn b) = false :=
    fun b first => by rw [(returns b (List.mem_of_mem_head? first)).2]; rfl
  obtain ⟨values, others⟩ := run_unique inits inits (behind shown) (behind shown') same
  exact ⟨values, run_unique (entries shown) (entries shown') ends ends others⟩

mutual

theorem Branch.alike_of_block : ∀ b c : Branch, b.Shown t → c.Shown u → b.block t = c.block u →
    Branch.Alike t u b c
  | .node _ e bs, .node _ f cs, shown, shown', same => by
    rw [Branch.block, Branch.block] at same
    obtain ⟨text, inner⟩ := Block.mk.inj same
    obtain ⟨inits, below, returns⟩ := inner_unique shown.2 shown'.2 inner
    exact .node (shown.1.alike shown'.1 text inits returns)
      (Branch.alike_of_blocks bs cs shown.2 shown'.2 below)

theorem Branch.alike_of_blocks : ∀ bs cs : List Branch, Branch.ShownAll t bs → Branch.ShownAll u cs →
    Branch.blocks t bs = Branch.blocks u cs → Branch.AlikeAll t u bs cs
  | [], [], _, _, _ => .nil
  | [], _ :: _, _, _, same => by
    rw [Branch.blocks, Branch.blocks] at same
    cases same
  | _ :: _, [], _, _, same => by
    rw [Branch.blocks, Branch.blocks] at same
    cases same
  | b :: bs, c :: cs, shown, shown', same => by
    rw [Branch.blocks, Branch.blocks] at same
    obtain ⟨first, others⟩ := List.cons.inj same
    exact .cons (Branch.alike_of_block b c shown.1 shown'.1 first)
      (Branch.alike_of_blocks bs cs shown.2 shown'.2 others)

end

mutual

theorem Branch.Alike.block : ∀ {b c : Branch}, Branch.Alike t u b c → b.Shown t → c.Shown u →
    b.block t = c.block u
  | _, _, .node alike below, shown, shown' => by
    obtain ⟨text, inits, returns⟩ := alike.printed shown.1.sober shown'.1.sober
    rw [Branch.block, Branch.block, inits, returns, below.blocks shown.2 shown'.2]
    exact congrArg (Block.mk · _) text

theorem Branch.AlikeAll.blocks : ∀ {bs cs : List Branch}, Branch.AlikeAll t u bs cs →
    Branch.ShownAll t bs → Branch.ShownAll u cs → Branch.blocks t bs = Branch.blocks u cs
  | _, _, .nil, _, _ => by rw [Branch.blocks, Branch.blocks]
  | _, _, .cons first others, shown, shown' => by
    rw [Branch.blocks, Branch.blocks, first.block shown.1 shown'.1, others.blocks shown.2 shown'.2]

end

theorem TypedExpr.clear : ∀ {e : TypedExpr}, Sober e → (∀ r ∈ e.types, Word (t.name r)) → (e.block t).Clear
  | .literal v ty, ⟨_, numbers⟩, words => by
    have word := words ty List.mem_cons_self
    rw [block, String.append_assoc]
    refine .mk (Surface.legible_append (Surface.literal_legible numbers) ?_) (List.forall_mem_nil _)
    rw [String.toList_append, List.mem_append, not_or]
    exact ⟨by decide, Surface.word_no_newline word⟩
  | .binary op lhs rhs ty, ⟨⟨left, right, _⟩, legible, legible'⟩, words => by
    obtain ⟨word, inner⟩ := List.forall_mem_cons.1 words
    obtain ⟨before, behind⟩ := List.forall_mem_append.1 inner
    have front : Text.Legible ("binary " ++ op.name ++ ": ") := by cases op <;> decide
    rw [block]
    exact .mk (Surface.legible_append front (Surface.word_no_newline word)) (List.forall_mem_cons.2
      ⟨clear ⟨left, legible⟩ before, List.forall_mem_singleton.2 (clear ⟨right, legible'⟩ behind)⟩)

theorem Draft.Shown.text_legible {d : Draft} (shown : d.Shown t) : Text.Legible (d.text t) := by
  obtain ⟨legible, types, -⟩ := shown
  have unmarked : '\n' ∉ "".toList := List.not_mem_nil
  cases legible with
  | enumeration word =>
    have front : Text.Legible "enum " := by decide
    exact Surface.legible_append (Surface.legible_append front (Surface.word_no_newline word)) unmarked
  | classDecl word generics =>
    have front : Text.Legible "class " := by decide
    exact Surface.legible_append (Surface.legible_append (Surface.legible_append front
      (Surface.word_no_newline word)) (Surface.generics_no_newline generics)) unmarked
  | @binding _ modifiers _ _ word _ =>
    rw [binding_text]
    exact Surface.legible_append (Surface.declared_no_newline modifiers word)
      (Surface.typeSuffix_no_newline (returned_legible fun r member =>
        types r (List.mem_append_left _ (Option.mem_toList.2 member))))
  | function _ newline parameters _ =>
    rw [function_text]
    exact Surface.signature_legible newline
      (written_legible parameters fun p member =>
        types _ (List.mem_append_right _ (List.mem_append_left _ (List.mem_map_of_mem member))))
      (returned_legible fun r member => types r (List.mem_append_left _ (Option.mem_toList.2 member)))

theorem value_types {kind : Kind} {e : TypedExpr} (given : e ∈ kind.values) :
    ∀ r ∈ e.types, r ∈ kind.types := by
  intro r member
  have within {xs : List TypedExpr} (among : e ∈ xs) : r ∈ xs.flatMap TypedExpr.types :=
    List.mem_flatMap.2 ⟨e, among, member⟩
  cases kind with
  | binding _ _ _ => exact List.mem_append_right _ (within given)
  | function _ _ _ _ _ => exact List.mem_append_right _ (List.mem_append_right _ (within given))
  | _ => cases given

theorem Draft.Shown.values_clear {d : Draft} (shown : d.Shown t) :
    ∀ e ∈ d.kind.values, (e.block t).Clear :=
  fun e given => TypedExpr.clear (shown.sober e given) fun r member => shown.types r (value_types given r member)

theorem Draft.Shown.init_clear {d : Draft} (shown : d.Shown t) : ∀ b ∈ d.kind.initBlocks t, b.Clear := by
  intro b member
  have values := shown.values_clear
  unfold Kind.initBlocks at member
  split at member
  · next kind =>
    obtain ⟨e, given, rfl⟩ := List.mem_map.1 member
    rw [kind] at values
    exact values e given
  · cases member

theorem Draft.Shown.returns_clear {d : Draft} (shown : d.Shown t) : ∀ b ∈ d.kind.returnBlocks t, b.Clear := by
  intro b member
  obtain ⟨e, given, rfl⟩ := List.mem_map.1 member
  exact .mk (by decide)
    (List.forall_mem_singleton.2 (shown.values_clear e (Typing.returns_subset_values e given)))

mutual

theorem Branch.Shown.clear : ∀ b : Branch, b.Shown t → (b.block t).Clear
  | .node _ entry branches, shown => by
    rw [Branch.block]
    exact .mk shown.1.text_legible (List.forall_mem_append.2 ⟨shown.1.init_clear,
      List.forall_mem_append.2 ⟨Branch.ShownAll.clear branches shown.2, shown.1.returns_clear⟩⟩)

theorem Branch.ShownAll.clear : ∀ bs : List Branch, Branch.ShownAll t bs → ∀ b ∈ Branch.blocks t bs, b.Clear
  | [], _ => by
    rw [Branch.blocks]
    exact List.forall_mem_nil _
  | b :: bs, shown => by
    rw [Branch.blocks]
    exact List.forall_mem_cons.2 ⟨Branch.Shown.clear b shown.1, Branch.ShownAll.clear bs shown.2⟩

end

-- The printed text tells a tree up to the names of what is referred to.
theorem Tree.text_iff (shown : Branch.ShownAll t t.rootBranch.parts)
    (shown' : Branch.ShownAll u u.rootBranch.parts) :
    t.text = u.text ↔ Branch.AlikeAll t u t.rootBranch.parts u.rootBranch.parts := by
  rw [Tree.text_eq, Tree.text_eq]
  constructor
  · intro same
    exact Branch.alike_of_blocks _ _ shown shown'
      (Block.page_unique (Branch.ShownAll.clear _ shown) (Branch.ShownAll.clear _ shown') same)
  · intro alike
    rw [alike.blocks shown shown']

end Frontend.Scope
