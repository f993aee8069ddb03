import Frontend.Proofs.Blocks
import Frontend.Proofs.Scanning
import Frontend.Proofs.SurfaceTexts

-- The printed tree of a source tells the tree that the source is read as.

namespace Frontend.Surface

open Text

theorem LegibleType.ident {e : Expr} (legible : LegibleType e) : ∃ name generics, e = .ident name generics := by
  cases legible with
  | plain _ => exact ⟨_, _, rfl⟩
  | applied _ _ _ => exact ⟨_, _, rfl⟩

mutual

def Expr.block : Expr → Block
  | .literal v => .mk v.literalText []
  | .ident name generics => .mk ("ident " ++ (Expr.ident name generics).typeText) []
  | .unary op x => .mk ("unary " ++ op.name) [x.block]
  | .binary op x y => .mk ("binary " ++ op.name) [x.block, y.block]
  | .grouping x => .mk "paren" [x.block]
  | .call f args => .mk "call" (f.block :: Expr.blocks args)
  | .interpolation parts => .mk "interpolation" (Expr.blocks parts)

def Expr.blocks : List Expr → List Block
  | [] => []
  | x :: xs => x.block :: Expr.blocks xs

end

theorem Expr.blocks_eq (xs : List Expr) : Expr.blocks xs = xs.map Expr.block := by
  induction xs with
  | nil => rw [Expr.blocks, List.map_nil]
  | cons x xs ih => rw [Expr.blocks, ih, List.map_cons]

mutual

theorem Expr.outline_eq (depth : Nat) : ∀ x : Expr, x.outline depth = x.block.lines depth
  | .literal v => by rw [Expr.outline, Expr.block, Block.lines, Block.linesAll]
  | .ident name generics => by rw [Expr.outline, Expr.block, Block.lines, Block.linesAll]
  | .unary op x => by
    rw [Expr.outline, Expr.block, Block.lines, Block.linesAll_single, Expr.outline_eq (depth + 1) x]
  | .binary op x y => by
    rw [Expr.outline, Expr.block, Block.lines, Block.linesAll, Block.linesAll_single,
      Expr.outline_eq (depth + 1) x, Expr.outline_eq (depth + 1) y, List.cons_append]
  | .grouping x => by
    rw [Expr.outline, Expr.block, Block.lines, Block.linesAll_single, Expr.outline_eq (depth + 1) x]
  | .call f args => by
    rw [Expr.outline, Expr.block, Block.lines, Block.linesAll, Expr.outline_eq (depth + 1) f,
      Expr.outlineAll_eq (depth + 1) args, List.cons_append]
  | .interpolation parts => by
    rw [Expr.outline, Expr.block, Block.lines, Expr.outlineAll_eq (depth + 1) parts]

theorem Expr.outlineAll_eq (depth : Nat) :
    ∀ xs : List Expr, Expr.outlineAll depth xs = Block.linesAll depth (Expr.blocks xs)
  | [] => by rw [Expr.outlineAll, Expr.blocks, Block.linesAll]
  | x :: xs => by
    rw [Expr.outlineAll, Expr.blocks, Block.linesAll, Expr.outline_eq depth x,
      Expr.outlineAll_eq depth xs]

end

def initBlocks (init : Option Expr) : List Block := init.toList.map Expr.block

mutual

def Node.block : Node → Block
  | .root children => .mk "root" (Node.blocks children)
  | .enumeration name members => .mk ("enum " ++ name) (Node.blocks members)
  | .classDecl name generics children =>
    .mk ("class " ++ name ++ genericsText (generics.getD [])) (Node.blocks children)
  | .function decl => FunctionDecl.block decl
  | .binding decl => BindingDecl.block decl
  | .ret value => .mk "return" [value.block]

def FunctionDecl.block : FunctionDecl → Block
  | ⟨_, name, returnType, parameters, internal, children⟩ =>
    .mk (signatureText name parameters returnType internal) (Node.blocks children)

def BindingDecl.block : BindingDecl → Block
  | ⟨modifiers, name, ty, init, getter⟩ =>
    .mk (modifiers.text ++ " " ++ name ++ typeSuffix ty)
      (initBlocks init ++ FunctionDecl.getterBlocks getter)

def FunctionDecl.getterBlocks : Option FunctionDecl → List Block
  | none => []
  | some decl => [FunctionDecl.block decl]

def Node.blocks : List Node → List Block
  | [] => []
  | x :: xs => x.block :: Node.blocks xs

end

theorem Node.blocks_eq (xs : List Node) : Node.blocks xs = xs.map Node.block := by
  induction xs with
  | nil => rw [Node.blocks, List.map_nil]
  | cons x xs ih => rw [Node.blocks, ih, List.map_cons]

theorem outlineInit_eq (depth : Nat) (init : Option Expr) :
    outlineInit depth init = Block.linesAll depth (initBlocks init) := by
  cases init with
  | none => rw [outlineInit, initBlocks, Option.toList_none, List.map_nil, Block.linesAll]
  | some e =>
    rw [outlineInit, initBlocks, Option.toList_some, List.map_cons, List.map_nil, Block.linesAll_single,
      Expr.outline_eq]

mutual

theorem Node.outline_eq (depth : Nat) : ∀ x : Node, x.outline depth = x.block.lines depth
  | .root children => by
    rw [Node.outline, Node.block, Block.lines, Node.outlineAll_eq (depth + 1) children]
  | .enumeration name members => by
    rw [Node.outline, Node.block, Block.lines, Node.outlineAll_eq (depth + 1) members]
  | .classDecl name generics children => by
    rw [Node.outline, Node.block, Block.lines, Node.outlineAll_eq (depth + 1) children]
  | .function decl => by rw [Node.outline, Node.block, FunctionDecl.outline_eq depth decl]
  | .binding decl => by rw [Node.outline, Node.block, BindingDecl.outline_eq depth decl]
  | .ret value => by
    rw [Node.outline, Node.block, Block.lines, Block.linesAll_single, Expr.outline_eq]

theorem FunctionDecl.outline_eq (depth : Nat) :
    ∀ decl : FunctionDecl, decl.outline depth = decl.block.lines depth
  | ⟨_, name, returnType, parameters, internal, children⟩ => by
    rw [FunctionDecl.outline, FunctionDecl.block, Block.lines, Node.outlineAll_eq (depth + 1) children]

theorem BindingDecl.outline_eq (depth : Nat) :
    ∀ decl : BindingDecl, decl.outline depth = decl.block.lines depth
  | ⟨modifiers, name, ty, init, getter⟩ => by
    rw [BindingDecl.outline, BindingDecl.block, Block.lines, Block.linesAll_append, outlineInit_eq,
      FunctionDecl.outlineGetter_eq (depth + 1) getter, List.cons_append]

theorem FunctionDecl.outlineGetter_eq (depth : Nat) : ∀ getter : Option FunctionDecl,
    FunctionDecl.outlineGetter depth getter = Block.linesAll depth (FunctionDecl.getterBlocks getter)
  | none => by rw [FunctionDecl.outlineGetter, FunctionDecl.getterBlocks, Block.linesAll]
  | some decl => by
    rw [FunctionDecl.outlineGetter, FunctionDecl.getterBlocks, Block.linesAll_single,
      FunctionDecl.outline_eq depth decl]

theorem Node.outlineAll_eq (depth : Nat) :
    ∀ xs : List Node, Node.outlineAll depth xs = Block.linesAll depth (Node.blocks xs)
  | [] => by rw [Node.outlineAll, Node.blocks, Block.linesAll]
  | x :: xs => by
    rw [Node.outlineAll, Node.blocks, Block.linesAll, Node.outline_eq depth x,
      Node.outlineAll_eq depth xs]

end

theorem legible_append {front rest : String} (legible : Text.Legible front)
    (single : '\n' ∉ rest.toList) : Text.Legible (front ++ rest) := by
  obtain ⟨none, some, other⟩ := legible
  rw [Text.Legible, String.toList_append, List.mem_append, not_or, List.head?_append_of_ne_nil _ some]
  exact ⟨⟨none, single⟩, List.append_ne_nil_of_left_ne_nil some _, other⟩

theorem word_no_newline {name : String} (word : Word name) : '\n' ∉ name.toList :=
  fun within => Bool.false_ne_true ((between_words '\n' (by decide)).symm.trans (word.2 _ within))

theorem separated_no_newline {texts : List String} (none : ∀ text ∈ texts, '\n' ∉ text.toList) :
    '\n' ∉ separated texts := by
  induction texts with
  | nil => exact List.not_mem_nil
  | cons text texts ih =>
    rw [List.forall_mem_cons] at none
    cases texts with
    | nil => rw [separated_one]; exact none.1
    | cons next others =>
      rw [separated_more]
      simp only [List.mem_append, List.mem_cons, not_or]
      exact ⟨none.1, by decide, by decide, ih none.2⟩

theorem LegibleType.no_newline {ty : Expr} (legible : LegibleType ty) : '\n' ∉ ty.typeText.toList := by
  induction legible with
  | plain word => rw [plain_typeText]; exact word_no_newline word
  | applied word _ _ ih =>
    rw [applied_typeText]
    have list := separated_no_newline (List.forall_mem_map.2 ih)
    simp only [List.mem_append, List.mem_cons, List.not_mem_nil, or_false, not_or]
    exact ⟨word_no_newline word, by decide, list, by decide⟩

theorem typeSuffix_no_newline {ty : Option Expr} (legible : ∀ written ∈ ty, LegibleType written) :
    '\n' ∉ (typeSuffix ty).toList := by
  cases ty with
  | none => decide
  | some ty =>
    rw [typeSuffix_some]
    simp only [List.mem_cons, not_or]
    exact ⟨by decide, by decide, (legible ty rfl).no_newline⟩

theorem modifiers_legible (m : Modifiers) : Text.Legible (m.text ++ " ") := by
  obtain ⟨val, static⟩ := m
  cases val <;> cases static <;> decide

theorem declared_no_newline (m : Modifiers) {name : String} (word : Word name) :
    Text.Legible (m.text ++ " " ++ name) :=
  legible_append (modifiers_legible m) (word_no_newline word)

theorem signature_legible {name : String} {parameters : List Parameter} {returnType : Option Expr}
    {internal : Bool} (single : '\n' ∉ name.toList)
    (legible : ∀ p ∈ parameters, Word p.name ∧ LegibleType p.ty)
    (type : ∀ ty ∈ returnType, LegibleType ty) :
    Text.Legible (signatureText name parameters returnType internal) := by
  have list : '\n' ∉ separated (parameters.map Parameter.text) := by
    refine separated_no_newline (List.forall_mem_map.2 fun p within => ?_)
    obtain ⟨word, type⟩ := legible p within
    rw [parameter_text]
    simp only [List.mem_append, List.mem_cons, not_or]
    exact ⟨(declared_no_newline p.modifiers word).1, by decide, by decide, type.no_newline⟩
  have internalLine : '\n' ∉ internalChars internal := by cases internal <;> decide
  rw [Text.Legible, signature_text]
  have blank : ('f' : Char) ≠ ' ' := by decide
  refine ⟨?_, nofun, fun same => blank (Option.some.inj same)⟩
  simp only [List.mem_append, List.mem_cons, not_or]
  exact ⟨by decide, single, by decide, list, by decide, typeSuffix_no_newline type, internalLine⟩

theorem generics_no_newline {generics : Option (List String)}
    (legible : ∀ names ∈ generics, names ≠ [] ∧ ∀ name ∈ names, Word name) :
    '\n' ∉ (genericsText (generics.getD [])).toList := by
  cases generics with
  | none => decide
  | some names =>
    obtain ⟨some, words⟩ := legible names rfl
    rw [Option.getD_some, generics_text some]
    simp only [List.mem_append, List.mem_cons, List.not_mem_nil, or_false, not_or]
    exact ⟨by decide, separated_no_newline fun name within => word_no_newline (words name within),
      by decide⟩

theorem literal_legible {v : Value} (numbers : ∀ d, v = .double d → d.Unsigned) :
    Text.Legible v.literalText := by
  have worded : Text.Legible (v.kindWord ++ " ") := by
    have all : ∀ word ∈ ["int", "double", "string", "bool"], Text.Legible (word ++ " ") := by decide
    refine all _ ?_
    cases v <;> simp [Value.kindWord]
  refine legible_append worded ?_
  cases v with
  | integer n => exact Double.integer_no_newline _
  | double d => exact (numbers d rfl).no_newline
  | string s => exact quoted_no_newline s
  | boolean b => cases b <;> decide

theorem Expr.Legible.clear {e : Expr} (legible : e.Legible) : e.block.Clear := by
  induction legible with
  | literal numbers => rw [Expr.block]; exact .mk (literal_legible numbers) (List.forall_mem_nil _)
  | name type =>
    have line : Text.Legible "ident " := by decide
    obtain ⟨name, generics, rfl⟩ := type.ident
    rw [Expr.block]
    exact .mk (legible_append line type.no_newline) (List.forall_mem_nil _)
  | @unary op _ _ ih =>
    rw [Expr.block]
    refine .mk ?_ (List.forall_mem_singleton.2 ih)
    cases op <;> decide
  | @binary op _ _ _ _ left right =>
    rw [Expr.block]
    refine .mk ?_ (List.forall_mem_cons.2 ⟨left, List.forall_mem_singleton.2 right⟩)
    cases op <;> decide
  | grouping _ ih =>
    rw [Expr.block]
    exact .mk (by decide) (List.forall_mem_singleton.2 ih)
  | call _ _ callee args =>
    rw [Expr.block, Expr.blocks_eq]
    exact .mk (by decide)
      (List.forall_mem_cons.2 ⟨callee, List.forall_mem_map.2 args⟩)
  | interpolation _ parts =>
    rw [Expr.block, Expr.blocks_eq]
    exact .mk (by decide) (List.forall_mem_map.2 parts)

theorem Node.Legible.clear {node : Node} (legible : node.Legible) : node.block.Clear := by
  induction legible with
  | enumeration word _ ih =>
    have line : Text.Legible "enum " := by decide
    rw [Node.block, Node.blocks_eq]
    exact .mk (legible_append line (word_no_newline word)) (List.forall_mem_map.2 ih)
  | classDecl word generics _ ih =>
    have line : Text.Legible "class " := by decide
    rw [Node.block, Node.blocks_eq]
    exact .mk (legible_append (legible_append line (word_no_newline word)) (generics_no_newline generics))
      (List.forall_mem_map.2 ih)
  | function _ single type parameters _ ih =>
    rw [Node.block, FunctionDecl.block, Node.blocks_eq]
    exact .mk (signature_legible single parameters type) (List.forall_mem_map.2 ih)
  | @binding modifiers _ _ init getter word type initial _ ih =>
    rw [Node.block, BindingDecl.block]
    refine .mk (legible_append (declared_no_newline modifiers word) (typeSuffix_no_newline type))
      (List.forall_mem_append.2 ⟨List.forall_mem_map.2 fun e within => ?_, ?_⟩)
    · exact (initial e (Option.mem_toList.1 within)).clear
    · cases getter with
      | none => rw [FunctionDecl.getterBlocks]; exact List.forall_mem_nil _
      | some decl =>
        rw [FunctionDecl.getterBlocks]
        exact List.forall_mem_singleton.2 (ih decl rfl)
  | ret value =>
    rw [Node.block]
    exact .mk (by decide) (List.forall_mem_singleton.2 value.clear)

-- The word that a line begins with, which tells the form of what is printed.
def lead (text : String) : List Char := text.toList.takeWhile (· != ' ')

theorem map_block_unique {α : Type} {block : α → Block} {xs ys : List α}
    (one : ∀ x ∈ xs, ∀ y ∈ ys, block x = block y → x = y) (same : xs.map block = ys.map block) :
    xs = ys := by
  induction xs generalizing ys with
  | nil => exact (List.map_eq_nil_iff.1 same.symm).symm
  | cons x xs ih =>
    cases ys with
    | nil => cases same
    | cons y ys =>
      obtain ⟨first, others⟩ := List.cons.inj same
      rw [one x List.mem_cons_self y List.mem_cons_self first]
      rw [ih (fun x inXs y inYs => one x (List.mem_cons_of_mem _ inXs) y (List.mem_cons_of_mem _ inYs)) others]

def Expr.form : Expr → String
  | .literal v => v.kindWord
  | .ident _ _ => "ident"
  | .unary _ _ => "unary"
  | .binary _ _ _ => "binary"
  | .grouping _ => "paren"
  | .call _ _ => "call"
  | .interpolation _ => "interpolation"

theorem lead_front (word front rest : String) (spelled : front.toList = word.toList ++ [' '])
    (single : ∀ c ∈ word.toList, (c != ' ') = true) : lead (front ++ rest) = word.toList := by
  rw [lead, String.toList_append, spelled, List.append_assoc, List.takeWhile_append_of_pos single,
    List.singleton_append, List.takeWhile_cons_of_neg (by decide), List.append_nil]

theorem kind_front (v : Value) : (v.kindWord ++ " ").toList = v.kindWord.toList ++ [' '] := by
  rw [String.toList_append]
  simp

theorem kindWord_single (v : Value) : ∀ c ∈ v.kindWord.toList, (c != ' ') = true := by
  cases v <;> simp [Value.kindWord]

theorem Expr.lead_block (e : Expr) : lead e.block.text = e.form.toList := by
  cases e with
  | literal v =>
    rw [Expr.block, Expr.form]
    exact lead_front v.kindWord _ v.text (kind_front v) (kindWord_single v)
  | ident name generics =>
    rw [Expr.block, Expr.form]
    exact lead_front "ident" "ident " _ (by decide) (by simp)
  | unary op e =>
    rw [Expr.block, Expr.form]
    exact lead_front "unary" "unary " _ (by decide) (by simp)
  | binary op x y =>
    rw [Expr.block, Expr.form]
    exact lead_front "binary" "binary " _ (by decide) (by simp)
  | grouping _ | call _ _ | interpolation _ =>
    rw [Expr.block, Expr.form, Block.text]
    decide

-- Two expressions of one form.
inductive Expr.Alike : Expr → Expr → Prop where
  | literal {v w : Value} : v.kindWord = w.kindWord → Alike (.literal v) (.literal w)
  | ident {m n : String} {g h : Option (List Expr)} : Alike (.ident m g) (.ident n h)
  | unary {o p : UnaryOperator} {x y : Expr} : Alike (.unary o x) (.unary p y)
  | binary {o p : BinaryOperator} {x x' y y' : Expr} : Alike (.binary o x x') (.binary p y y')
  | grouping {x y : Expr} : Alike (.grouping x) (.grouping y)
  | call {f g : Expr} {xs ys : List Expr} : Alike (.call f xs) (.call g ys)
  | interpolation {xs ys : List Expr} : Alike (.interpolation xs) (.interpolation ys)

theorem Expr.alike_of_block {x y : Expr} (same : x.block = y.block) : x.Alike y := by
  have forms : x.form = y.form := by rw [← String.toList_inj, ← Expr.lead_block, ← Expr.lead_block, same]
  cases x with
  | literal v =>
    cases y with
    | literal w => exact .literal forms
    | _ => cases v <;> simp [Expr.form, Value.kindWord] at forms
  | _ =>
    cases y with
    | literal w => cases w <;> simp [Expr.form, Value.kindWord] at forms
    | _ => first | constructor | simp [Expr.form] at forms

theorem UnaryOperator.name_injective {o p : UnaryOperator} (same : o.name = p.name) : o = p := by
  cases o <;> cases p <;> first | rfl | exact absurd same (by decide)

theorem BinaryOperator.name_injective {o p : BinaryOperator} (same : o.name = p.name) : o = p := by
  have table : ∀ o ∈ [add, sub, mul, div, equal, notEqual, less, lessEqual, greater, greaterEqual, member],
      ∀ p ∈ [add, sub, mul, div, equal, notEqual, less, lessEqual, greater, greaterEqual, member],
        o.name = p.name → o = p := by decide
  exact table o (by cases o <;> decide) p (by cases p <;> decide) same

theorem append_left_inj {front a b : String} (same : front ++ a = front ++ b) : a = b := by
  have chars := congrArg String.toList same
  rw [String.toList_append, String.toList_append] at chars
  exact String.toList_inj.1 (List.append_cancel_left chars)

theorem literal_unique {v w : Value} (left : ∀ d, v = .double d → d.Unsigned)
    (right : ∀ d, w = .double d → d.Unsigned) (same : v.literalText = w.literalText) : v = w := by
  have alike : (Expr.literal v).Alike (.literal w) :=
    Expr.alike_of_block (by rw [Expr.block, Expr.block, same])
  obtain ⟨kinds⟩ := alike
  have texts : v.text = w.text := by
    rw [Value.literalText, Value.literalText, kinds] at same
    exact append_left_inj same
  cases v with
  | integer m =>
    cases w with
    | integer n =>
      rw [Value.text, Value.text] at texts
      rw [Int64.toInt_inj.1 (Int.repr_inj.1 texts)]
    | _ => simp [Value.kindWord] at kinds
  | double c =>
    cases w with
    | double d =>
      rw [Value.text, Value.text] at texts
      rw [(left c rfl).text_injective (right d rfl) texts]
    | _ => simp [Value.kindWord] at kinds
  | string s =>
    cases w with
    | string t =>
      rw [Value.text, Value.text] at texts
      rw [quoted_injective texts]
    | _ => simp [Value.kindWord] at kinds
  | boolean a =>
    cases w with
    | boolean b => cases a <;> cases b <;> first | rfl | exact absurd texts (by decide)
    | _ => simp [Value.kindWord] at kinds

theorem Expr.Legible.unique {x y : Expr} (left : x.Legible) (right : y.Legible)
    (same : x.block = y.block) : x = y := by
  have alike := Expr.alike_of_block same
  induction left generalizing y with
  | literal numbers =>
    cases alike
    rw [Expr.block, Expr.block] at same
    cases right with
    | literal numbers' => rw [literal_unique numbers numbers' (Block.mk.inj same).1]
    | name type => obtain ⟨_, _, none⟩ := type.ident; cases none
  | name type =>
    obtain ⟨n, generics, rfl⟩ := type.ident
    cases alike
    rw [Expr.block, Expr.block] at same
    cases right with
    | name type' =>
      have texts := append_left_inj (Block.mk.inj same).1
      exact (type.unique type' TypeEnds.nil TypeEnds.nil (by rw [texts])).1
  | unary _ ih =>
    cases alike
    rw [Expr.block, Expr.block] at same
    cases right with
    | name type => obtain ⟨_, _, none⟩ := type.ident; cases none
    | unary operand =>
      obtain ⟨names, inner⟩ := Block.mk.inj same
      have below := (List.cons.inj inner).1
      rw [UnaryOperator.name_injective (append_left_inj names),
        ih operand below (Expr.alike_of_block below)]
  | binary _ _ first second =>
    cases alike
    rw [Expr.block, Expr.block] at same
    cases right with
    | name type => obtain ⟨_, _, none⟩ := type.ident; cases none
    | binary lhs rhs =>
      obtain ⟨names, inner⟩ := Block.mk.inj same
      obtain ⟨below, others⟩ := List.cons.inj inner
      have below' := (List.cons.inj others).1
      rw [BinaryOperator.name_injective (append_left_inj names),
        first lhs below (Expr.alike_of_block below), second rhs below' (Expr.alike_of_block below')]
  | grouping _ ih =>
    cases alike
    rw [Expr.block, Expr.block] at same
    cases right with
    | name type => obtain ⟨_, _, none⟩ := type.ident; cases none
    | grouping inside =>
      have below := (List.cons.inj (Block.mk.inj same).2).1
      rw [ih inside below (Expr.alike_of_block below)]
  | call _ _ ih items =>
    cases alike
    rw [Expr.block, Expr.block, Expr.blocks_eq, Expr.blocks_eq] at same
    cases right with
    | name type => obtain ⟨_, _, none⟩ := type.ident; cases none
    | call callee args =>
      obtain ⟨below, others⟩ := List.cons.inj (Block.mk.inj same).2
      rw [ih callee below (Expr.alike_of_block below)]
      rw [map_block_unique
        (fun x inXs y inYs same => items x inXs (args y inYs) same (Expr.alike_of_block same)) others]
  | interpolation _ ih =>
    cases alike
    rw [Expr.block, Expr.block, Expr.blocks_eq, Expr.blocks_eq] at same
    cases right with
    | name type => obtain ⟨_, _, none⟩ := type.ident; cases none
    | interpolation parts =>
      rw [map_block_unique
        (fun x inXs y inYs same => ih x inXs (parts y inYs) same (Expr.alike_of_block same))
        (Block.mk.inj same).2]

def Node.form : Node → String
  | .root _ => "root"
  | .enumeration _ _ => "enum"
  | .classDecl _ _ _ => "class"
  | .function _ => "function"
  | .binding decl => if decl.modifiers.val then "val" else "var"
  | .ret _ => "return"

theorem lead_function (decl : FunctionDecl) : lead decl.block.text = "function".toList := by
  obtain ⟨_, name, returnType, parameters, internal, children⟩ := decl
  rw [FunctionDecl.block, Block.text, signatureText]
  simp only [String.append_assoc]
  exact lead_front "function" "function " _ (by decide) (by simp)

theorem Node.lead_block (node : Node) : lead node.block.text = node.form.toList := by
  cases node with
  | root _ | ret _ =>
    rw [Node.block, Node.form, Block.text]
    decide
  | enumeration name members =>
    rw [Node.block, Node.form]
    exact lead_front "enum" "enum " _ (by decide) (by simp)
  | classDecl name generics children =>
    rw [Node.block, Node.form, Block.text, String.append_assoc]
    exact lead_front "class" "class " _ (by decide) (by simp)
  | function decl =>
    rw [Node.block, Node.form]
    exact lead_function decl
  | binding decl =>
    obtain ⟨⟨val, static⟩, name, ty, init, getter⟩ := decl
    rw [Node.block, Node.form, BindingDecl.block, Block.text, lead]
    simp only [String.toList_append, modifiers_text]
    cases val <;> cases static <;> simp [keywordChars, staticChars]

inductive Node.Alike : Node → Node → Prop where
  | root {xs ys : List Node} : Alike (.root xs) (.root ys)
  | enumeration {m n : String} {xs ys : List Node} : Alike (.enumeration m xs) (.enumeration n ys)
  | classDecl {m n : String} {g h : Option (List String)} {xs ys : List Node} :
      Alike (.classDecl m g xs) (.classDecl n h ys)
  | function {f g : FunctionDecl} : Alike (.function f) (.function g)
  | binding {v w : BindingDecl} : Alike (.binding v) (.binding w)
  | ret {x y : Expr} : Alike (.ret x) (.ret y)

theorem Node.alike_of_block {x y : Node} (same : x.block = y.block) : x.Alike y := by
  have forms : x.form = y.form := by rw [← String.toList_inj, ← Node.lead_block, ← Node.lead_block, same]
  cases x with
  | binding v =>
    cases y with
    | binding w => exact .binding
    | _ => cases val : v.modifiers.val <;> simp [Node.form, val] at forms
  | _ =>
    cases y with
    | binding w => cases val : w.modifiers.val <;> simp [Node.form, val] at forms
    | _ => first | constructor | simp [Node.form] at forms

-- What a variable begins with and its getter are told apart by the first word of the getter.
theorem Expr.block_not_function (e : Expr) (decl : FunctionDecl) : e.block ≠ decl.block := by
  intro same
  have forms : e.form = "function" := by
    rw [← String.toList_inj, ← Expr.lead_block, same, lead_function]
  cases e with
  | literal v => cases v <;> simp [Expr.form, Value.kindWord] at forms
  | _ => simp [Expr.form] at forms

theorem endings_unique {init init' : Option Expr} {getter getter' : Option FunctionDecl}
    (same : initBlocks init ++ FunctionDecl.getterBlocks getter =
      initBlocks init' ++ FunctionDecl.getterBlocks getter') :
    initBlocks init = initBlocks init' ∧
      FunctionDecl.getterBlocks getter = FunctionDecl.getterBlocks getter' := by
  have mixed {e : Expr} {bs : List Block} {getter : Option FunctionDecl} :
      e.block :: bs ≠ FunctionDecl.getterBlocks getter := by
    intro same
    cases getter with
    | none => rw [FunctionDecl.getterBlocks] at same; cases same
    | some decl =>
      rw [FunctionDecl.getterBlocks] at same
      exact e.block_not_function decl (List.cons.inj same).1
  cases init with
  | none =>
    cases init' with
    | none => exact ⟨rfl, same⟩
    | some e => exact absurd same.symm mixed
  | some e =>
    cases init' with
    | none => exact absurd same mixed
    | some e' =>
      obtain ⟨first, others⟩ := List.cons.inj same
      exact ⟨congrArg (fun b => [b]) first, others⟩

theorem init_unique {init init' : Option Expr} (left : ∀ e ∈ init, e.Legible)
    (right : ∀ e ∈ init', e.Legible) (same : initBlocks init = initBlocks init') : init = init' := by
  cases init with
  | none =>
    cases init' with
    | none => rfl
    | some e => cases same
  | some e =>
    cases init' with
    | none => cases same
    | some e' => rw [(left e rfl).unique (right e' rfl) (List.cons.inj same).1]

theorem getter_unique {getter getter' : Option FunctionDecl}
    (one : ∀ f ∈ getter, ∀ g ∈ getter', (Node.function f).block = (Node.function g).block →
      Node.function f = .function g)
    (same : FunctionDecl.getterBlocks getter = FunctionDecl.getterBlocks getter') : getter = getter' := by
  cases getter with
  | none =>
    cases getter' with
    | none => rfl
    | some g => rw [FunctionDecl.getterBlocks, FunctionDecl.getterBlocks] at same; cases same
  | some f =>
    cases getter' with
    | none => rw [FunctionDecl.getterBlocks, FunctionDecl.getterBlocks] at same; cases same
    | some g =>
      rw [FunctionDecl.getterBlocks, FunctionDecl.getterBlocks] at same
      have blocks : (Node.function f).block = (Node.function g).block := by
        rw [Node.block, Node.block]
        exact (List.cons.inj same).1
      rw [Node.function.inj (one f rfl g rfl blocks)]

theorem Node.Legible.unique {x y : Node} (left : x.Legible) (right : y.Legible)
    (same : x.block = y.block) : x = y := by
  have alike := Node.alike_of_block same
  induction left generalizing y with
  | enumeration word _ ih =>
    cases alike
    rw [Node.block, Node.block, Node.blocks_eq, Node.blocks_eq] at same
    cases right with
    | enumeration word' members =>
      obtain ⟨names, inner⟩ := Block.mk.inj same
      rw [append_left_inj names, map_block_unique
        (fun x inXs y inYs same => ih x inXs (members y inYs) same (Node.alike_of_block same)) inner]
  | classDecl word generics _ ih =>
    cases alike
    rw [Node.block, Node.block, Node.blocks_eq, Node.blocks_eq] at same
    cases right with
    | classDecl word' generics' children =>
      obtain ⟨head, inner⟩ := Block.mk.inj same
      obtain ⟨rfl, rfl⟩ := class_unique word word' generics generics' head
      rw [map_block_unique
        (fun x inXs y inYs same => ih x inXs (children y inYs) same (Node.alike_of_block same)) inner]
  | function opening _ type parameters _ ih =>
    cases alike
    cases right with
    | function opening' _ type' parameters' children =>
      rw [Node.block, Node.block, FunctionDecl.block, FunctionDecl.block, Node.blocks_eq,
        Node.blocks_eq] at same
      obtain ⟨head, inner⟩ := Block.mk.inj same
      obtain ⟨rfl, rfl, rfl, rfl⟩ :=
        signature_unique opening opening' parameters parameters' type type' head
      rw [map_block_unique
        (fun x inXs y inYs same => ih x inXs (children y inYs) same (Node.alike_of_block same)) inner]
  | binding word type init _ ih =>
    cases alike
    cases right with
    | binding word' type' init' getter' =>
      rw [Node.block, Node.block, BindingDecl.block, BindingDecl.block] at same
      obtain ⟨head, inner⟩ := Block.mk.inj same
      obtain ⟨rfl, rfl, rfl⟩ := binding_unique word word' type type' head
      obtain ⟨inits, getters⟩ := endings_unique inner
      rw [init_unique init init' inits, getter_unique
        (fun f inF g inG same => ih f inF (getter' g inG) same (Node.alike_of_block same)) getters]
  | ret value =>
    cases alike
    rw [Node.block, Node.block] at same
    cases right with
    | ret value' => rw [value.unique value' (List.cons.inj (Block.mk.inj same).2).1]

theorem Expr.Legible.tree_unique {x y : Expr} (left : x.Legible) (right : y.Legible)
    (same : x.tree = y.tree) : x = y := by
  have singles {e : Expr} (legible : e.Legible) : ∀ b ∈ [e.block], b.Clear :=
    List.forall_mem_singleton.2 legible.clear
  rw [Expr.tree, Expr.tree, Expr.outline_eq, Expr.outline_eq, ← Block.linesAll_single,
    ← Block.linesAll_single] at same
  exact left.unique right (List.cons.inj (Block.page_unique (singles left) (singles right) same)).1

theorem Node.Legible.root_unique {xs ys : List Node} (left : ∀ x ∈ xs, x.Legible)
    (right : ∀ y ∈ ys, y.Legible) (same : (Node.root xs).tree = (Node.root ys).tree) : xs = ys := by
  have clear {xs : List Node} (legible : ∀ x ∈ xs, x.Legible) : ∀ b ∈ xs.map Node.block, b.Clear :=
    List.forall_mem_map.2 fun x within => (legible x within).clear
  rw [Node.tree, Node.tree, Node.outlineAll_eq, Node.outlineAll_eq, Node.blocks_eq, Node.blocks_eq] at same
  exact map_block_unique (fun x inXs y inYs => (left x inXs).unique (right y inYs))
    (Block.page_unique (clear left) (clear right) same)

end Frontend.Surface

namespace Frontend

open Surface

-- A printed tree shows all that was read: sources with the same printed tree are read as the same tree,
-- as programs and as expressions.
theorem printed_trees_determine (a b : String) :
    (∀ x y, readProgram a = .ok x → readProgram b = .ok y → x.tree = y.tree → x = y) ∧
    ∀ x y, readExpr a = .ok x → readExpr b = .ok y → x.tree = y.tree → x = y := by
  constructor
  · intro x y readX readY same
    obtain ⟨xs, rfl, left⟩ := readProgram_legible readX
    obtain ⟨ys, rfl, right⟩ := readProgram_legible readY
    rw [Node.Legible.root_unique left right same]
  · intro x y readX readY same
    exact (readExpr_legible readX).tree_unique (readExpr_legible readY) same

-- A zero at the end of a number is not printed, and a range is printed as the call that it is.
theorem short_forms_printed :
    (∃ x y, readProgram "val n = 1.50;" = .ok x ∧ readProgram "val n = 1.5;" = .ok y ∧
      x.tree = y.tree ∧ x = y) ∧
    ∃ x y, readExpr "1..2" = .ok x ∧ readExpr "Range(1, 2)" = .ok y ∧ x.tree = y.tree ∧ x = y := by
  have number : readProgram "val n = 1.50;" = .ok (.root [.binding ⟨.readOnly, "n", none,
      some (.literal (.double ⟨4609434218613702656⟩)), none⟩]) := ok_of_toOption (by decide +kernel)
  have shorter : readProgram "val n = 1.5;" = .ok (.root [.binding ⟨.readOnly, "n", none,
      some (.literal (.double ⟨4609434218613702656⟩)), none⟩]) := ok_of_toOption (by decide +kernel)
  have range : readExpr "1..2" =
      .ok (.rangeOf (.literal (.integer 1)) (.literal (.integer 2))) := ok_of_toOption (by decide +kernel)
  have call : readExpr "Range(1, 2)" =
      .ok (.rangeOf (.literal (.integer 1)) (.literal (.integer 2))) := ok_of_toOption (by decide +kernel)
  exact ⟨⟨_, _, number, shorter, rfl, (printed_trees_determine _ _).1 _ _ number shorter rfl⟩,
    ⟨_, _, range, call, rfl, (printed_trees_determine _ _).2 _ _ range call rfl⟩⟩

end Frontend
