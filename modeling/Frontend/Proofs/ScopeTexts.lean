import Frontend.Proofs.ScopeBlocks
import Frontend.Proofs.Equivalence

-- What is printed for the entries of a scope tree tells the entries, up to what they refer to, which is
-- printed by its name.

namespace Frontend.Scope

open Text
open Surface (Modifiers genericsText lead lead_front append_left_inj literal_unique)

variable {t u : Tree} {R : Ref → Ref → Prop}

theorem unsigned_number {d : Double} (unsigned : d.Unsigned) : d.isNaN = false := by
  obtain ⟨m, bound, rfl⟩ := unsigned
  simp [Double.isNaN, Double.magnitude_unsigned bound, bound]

theorem unsigned_equals {c d : Double} (left : c.Unsigned) (right : d.Unsigned)
    (equal : c.equals d = true) : c = d := by
  rw [Double.equals, Bool.and_eq_true, Bool.or_eq_true, Bool.and_eq_true, beq_iff_eq] at equal
  rcases equal.2 with bits | ⟨zero, zero'⟩
  · cases c
    cases d
    cases bits
    rfl
  · obtain ⟨m, bound, rfl⟩ := left
    obtain ⟨n, bound', rfl⟩ := right
    rw [Double.isZero, beq_iff_eq, Double.magnitude_unsigned bound] at zero
    rw [Double.isZero, beq_iff_eq, Double.magnitude_unsigned bound'] at zero'
    rw [zero, zero']

theorem equals_eq {v w : Value} (left : ∀ d, v = .double d → d.Unsigned)
    (right : ∀ d, w = .double d → d.Unsigned) (equal : v.equals w = true) : v = w := by
  cases v <;> cases w <;> try cases equal
  case integer.integer => rw [beq_iff_eq.1 equal]
  case double.double => rw [unsigned_equals (left _ rfl) (right _ rfl) equal]
  case string.string => rw [beq_iff_eq.1 equal]
  case boolean.boolean => rw [beq_iff_eq.1 equal]

theorem TypedExpr.Matches.eq : ∀ {e e' : TypedExpr}, e.Matches R e' → e.WellTyped → e'.WellTyped →
    e.Legible → e'.Legible → e = e'
  | _, _, .literal equal _, wellTyped, wellTyped', legible, legible' => by
    obtain rfl := equals_eq legible legible' equal
    cases wellTyped
    cases wellTyped'
    rfl
  | _, _, .binary _ left right, ⟨typed, typed', _, _, _, integer⟩, ⟨typed₁, typed₁', _, _, _, integer'⟩,
    ⟨legible, legible'⟩, ⟨legible₁, legible₁'⟩ => by
    rw [left.eq typed typed₁ legible legible₁, right.eq typed' typed₁' legible' legible₁', integer, integer']

theorem TypedExpr.Legible.hasNaN {e : TypedExpr} (legible : e.Legible) : e.hasNaN = false := by
  induction e with
  | literal v ty =>
    cases v with
    | double d => exact unsigned_number (legible d rfl)
    | _ => rfl
  | binary op lhs rhs ty left right =>
    rw [TypedExpr.hasNaN, left legible.1, right legible.2]
    rfl

def TypedExpr.form : TypedExpr → String
  | literal v _ => v.kindWord
  | binary _ _ _ _ => "binary"

theorem TypedExpr.lead_block (e : TypedExpr) : lead (e.block t).text = e.form.toList := by
  cases e with
  | literal v ty =>
    have spelled : v.literalText ++ ": " ++ t.name ty =
        v.kindWord ++ " " ++ (v.text ++ (": " ++ t.name ty)) := by
      simp only [Value.literalText, String.append_assoc]
    rw [block, form, Block.text, spelled]
    exact lead_front v.kindWord _ _ (Surface.kind_front v) (Surface.kindWord_single v)
  | binary op lhs rhs ty =>
    rw [block, form, Block.text, String.append_assoc, String.append_assoc]
    exact lead_front "binary" "binary " _ (by decide) (by simp)

theorem append_right_inj {rest a b : String} (same : a ++ rest = b ++ rest) : a = b := by
  have chars := congrArg String.toList same
  rw [String.toList_append, String.toList_append] at chars
  exact String.toList_inj.1 (List.append_cancel_right chars)

theorem literalType_kindWord {v w : Value} (same : v.kindWord = w.kindWord) :
    literalType v = literalType w := by
  cases v <;> cases w <;> first | rfl | simp [Value.kindWord] at same

theorem TypedExpr.form_same {e e' : TypedExpr} (same : e.block t = e'.block u) : e.form = e'.form := by
  rw [← String.toList_inj, ← lead_block (t := t), ← lead_block (t := u), same]

-- The type of a right expression is built in, so that its name is no question of the tree.
theorem TypedExpr.block_unique : ∀ {e e' : TypedExpr}, e.WellTyped → e'.WellTyped → e.Legible →
    e'.Legible → e.block t = e'.block u → e = e'
  | .literal v ty, .literal w ty', wellTyped, wellTyped', legible, legible', same => by
    have kinds := literalType_kindWord (form_same same)
    cases wellTyped
    cases wellTyped'
    rw [block, block, kinds] at same
    have texts := append_right_inj (append_right_inj (Block.mk.inj same).1)
    rw [literal_unique legible legible' texts]
  | .literal v _, .binary _ _ _ _, _, _, _, _, same => by
    have forms := form_same same
    cases v <;> simp [form, Value.kindWord] at forms
  | .binary _ _ _ _, .literal w _, _, _, _, _, same => by
    have forms := form_same same
    cases w <;> simp [form, Value.kindWord] at forms
  | .binary _ _ _ _, .binary _ _ _ _, ⟨typed, typed', op, _, _, integer⟩,
    ⟨typed₁, typed₁', op', _, _, integer'⟩, ⟨legible, legible'⟩, ⟨legible₁, legible₁'⟩, same => by
    rw [block, block] at same
    obtain ⟨left, others⟩ := List.cons.inj (Block.mk.inj same).2
    rw [block_unique typed typed₁ legible legible₁ left,
      block_unique typed' typed₁' legible' legible₁' (List.cons.inj others).1, op, op', integer, integer']

theorem TypedExpr.block_same : ∀ {e : TypedExpr}, e.WellTyped → e.block t = e.block u
  | .literal _ _, rfl => rfl
  | .binary _ _ _ _, ⟨left, right, _, _, _, integer⟩ => by
    rw [block, block, block_same left, block_same right, integer]
    rfl

-- What is printed for an entry can be read back from its lines.
structure Draft.Shown (t : Tree) (d : Draft) : Prop where
  legible : d.Legible
  types : ∀ r ∈ d.kind.types, Word (t.name r)
  values : ∀ e ∈ d.kind.values, e.WellTyped

def SameName (t u : Tree) (r s : Ref) : Prop := t.name r = u.name s

-- Two entries agree, where what they refer to is told by its name.
structure Draft.Alike (t u : Tree) (d d' : Draft) : Prop where
  name : d.name = d'.name
  internal : d.internal = d'.internal
  kind : d.kind.Matches (SameName t u) d'.kind

def Draft.text (t : Tree) (d : Draft) : String :=
  d.kind.text t d.name ++ (if d.internal then " (internal)" else "")

def Draft.form (d : Draft) : String :=
  match d.kind with
  | .root => "root"
  | .enumeration => "enum"
  | .classDecl _ => "class"
  | .binding modifiers _ _ => if modifiers.val then "val" else "var"
  | .function _ _ _ _ _ => "function"

theorem Draft.Legible.lead_text {d : Draft} (legible : d.Legible) : lead (d.text t) = d.form.toList := by
  cases legible with
  | enumeration _ =>
    rw [Draft.text, Draft.form, Kind.text, String.append_assoc]
    exact lead_front "enum" "enum " _ (by decide) (by simp)
  | classDecl _ _ =>
    rw [Draft.text, Draft.form, Kind.text, String.append_assoc, String.append_assoc]
    exact lead_front "class" "class " _ (by decide) (by simp)
  | @binding name modifiers _ _ _ _ =>
    obtain ⟨val, static⟩ := modifiers
    rw [Draft.text, Draft.form, Kind.text, lead]
    simp only [String.toList_append, Surface.modifiers_text]
    cases val <;> cases static <;> simp [Surface.keywordChars, Surface.staticChars]
  | function _ _ _ _ =>
    rw [Draft.text, Draft.form, Kind.text]
    simp only [String.append_assoc]
    exact lead_front "function" "function " _ (by decide) (by simp)

def named (t : Tree) (r : Ref) : Surface.Expr := .plain (t.name r)

def Parameter.written (t : Tree) (p : Parameter) : Surface.Parameter := ⟨p.modifiers, p.name, named t p.ty⟩

theorem Parameter.text_written (p : Parameter) : p.text t = (p.written t).text := by
  rw [Parameter.text, Surface.Parameter.text, Parameter.written, named, Surface.plain_typeText]

theorem typeSuffix_written (ty : Option Ref) : typeSuffix t ty = Surface.typeSuffix (ty.map (named t)) := by
  cases ty with
  | none => rfl
  | some r => rw [typeSuffix, Option.map_some, Surface.typeSuffix, named, Surface.plain_typeText]

theorem function_text {name : String} {returnType : Option Ref} {parameters : List Parameter}
    {returns : List TypedExpr} {internal : Bool} :
    Draft.text t ⟨name, .function false [] returnType parameters returns, internal⟩ =
      Surface.signatureText name (parameters.map (Parameter.written t)) (returnType.map (named t))
        internal := by
  have parameters : parameters.map (Parameter.text t) =
      (parameters.map (Parameter.written t)).map Surface.Parameter.text := by
    rw [List.map_map]
    exact List.map_congr_left fun p _ => p.text_written
  rw [Draft.text, Kind.text, Surface.signatureText, parameters, typeSuffix_written, genericsText, if_pos rfl,
    String.append_empty]

theorem binding_text {name : String} {modifiers : Modifiers} {ty : Option Ref} {init : Option TypedExpr} :
    Draft.text t ⟨name, .binding modifiers ty init, false⟩ =
      modifiers.text ++ " " ++ name ++ Surface.typeSuffix (ty.map (named t)) := by
  rw [Draft.text, Kind.text, typeSuffix_written]
  exact String.append_empty

theorem sameName_of_named {r s : Ref} (same : named t r = named u s) : SameName t u r s :=
  (Surface.Expr.ident.inj same).1

theorem types_same {a b : Option Ref} (same : a.map (named t) = b.map (named u)) :
    Option.Rel (SameName t u) a b := by
  cases a <;> cases b
  · exact .none
  · cases same
  · cases same
  · exact .some (sameName_of_named (Option.some.inj same))

theorem parameters_same : ∀ {ps qs : List Parameter},
    ps.map (Parameter.written t) = qs.map (Parameter.written u) →
    List.Forall₂ (Parameter.Matches (SameName t u)) ps qs
  | [], [], _ => .nil
  | p :: ps, q :: qs, same => by
    obtain ⟨first, others⟩ := List.cons.inj same
    obtain ⟨modifiers, name, ty⟩ := Surface.Parameter.mk.inj first
    exact .cons ⟨modifiers, name, sameName_of_named ty⟩ (parameters_same others)

-- What values there are in an entry of a program.
def Sober (e : TypedExpr) : Prop := e.WellTyped ∧ e.Legible

theorem Sober.matches {e : TypedExpr} (sober : Sober e) : e.Matches (SameName t u) e := by
  refine TypedExpr.matches_self_iff.2 ⟨fun r member => ?_, sober.2.hasNaN⟩
  obtain ⟨p, rfl⟩ := Typing.wellTyped_types sober.1 r member
  rfl

theorem values_unique {xs ys : List TypedExpr} (left : ∀ x ∈ xs, Sober x) (right : ∀ y ∈ ys, Sober y)
    (same : xs.map (TypedExpr.block t) = ys.map (TypedExpr.block u)) : xs = ys := by
  have blocks : ys.map (TypedExpr.block u) = ys.map (TypedExpr.block t) :=
    List.map_congr_left fun y member => TypedExpr.block_same (right y member).1
  rw [blocks] at same
  refine Surface.map_block_unique (fun x inXs y inYs => ?_) same
  exact TypedExpr.block_unique (left x inXs).1 (right y inYs).1 (left x inXs).2 (right y inYs).2

theorem toList_unique {a b : Option TypedExpr} (same : a.toList = b.toList) : a = b := by
  cases a <;> cases b
  · rfl
  · cases same
  · cases same
  · exact congrArg some (List.cons.inj same).1

theorem returns_unique {xs ys : List TypedExpr} (left : ∀ x ∈ xs, Sober x) (right : ∀ y ∈ ys, Sober y)
    (same : xs.map (returnBlock t) = ys.map (returnBlock u)) : xs = ys := by
  have blocks {t : Tree} {xs : List TypedExpr} : xs.map (returnBlock t) =
      (xs.map (TypedExpr.block t)).map fun b => .mk "return" [b] := by
    rw [List.map_map]
    rfl
  rw [blocks, blocks] at same
  refine values_unique left right ((List.map_inj_right fun a b same => ?_).1 same)
  exact (List.cons.inj (Block.mk.inj same).2).1

theorem Draft.Shown.sober {d : Draft} (shown : d.Shown t) : ∀ e ∈ d.kind.values, Sober e := by
  obtain ⟨legible, -, values⟩ := shown
  refine fun e member => ⟨values e member, ?_⟩
  cases legible with
  | enumeration _ | classDecl _ _ => cases member
  | binding _ numbers => exact numbers e (Option.mem_toList.1 member)
  | function _ _ _ numbers => exact numbers e member

theorem returned_legible {ty : Option Ref} (words : ∀ r ∈ ty, Word (t.name r)) :
    ∀ written ∈ ty.map (named t), Surface.LegibleType written := by
  intro written member
  obtain ⟨r, known, rfl⟩ := Option.map_eq_some_iff.1 member
  exact .plain (words r known)

theorem written_legible {parameters : List Parameter} (words : ∀ p ∈ parameters, Word p.name)
    (types : ∀ p ∈ parameters, Word (t.name p.ty)) :
    ∀ p ∈ parameters.map (Parameter.written t), Word p.name ∧ Surface.LegibleType p.ty :=
  List.forall_mem_map.2 fun p member => ⟨words p member, .plain (types p member)⟩

theorem Draft.Shown.alike {d d' : Draft} (left : d.Shown t) (right : d'.Shown u)
    (text : d.text t = d'.text u) (init : d.kind.initBlocks t = d'.kind.initBlocks u)
    (returns : d.kind.returnBlocks t = d'.kind.returnBlocks u) : d.Alike t u d' := by
  have forms : d.form = d'.form := by
    rw [← String.toList_inj, ← left.legible.lead_text (t := t), ← right.legible.lead_text (t := u), text]
  have sober := left.sober
  have sober' := right.sober
  obtain ⟨legible, types, values⟩ := left
  obtain ⟨legible', types', values'⟩ := right
  cases legible with
  | enumeration word =>
    cases legible' with
    | enumeration word' =>
      exact ⟨append_left_inj (append_right_inj text), rfl, .enumeration⟩
    | @binding _ modifiers _ _ _ _ => cases val : modifiers.val <;> simp [Draft.form, val] at forms
    | _ => simp [Draft.form] at forms
  | classDecl word generics =>
    cases legible' with
    | classDecl word' generics' =>
      obtain ⟨rfl, rfl⟩ := Surface.class_unique word word' generics generics' (append_right_inj text)
      exact ⟨rfl, rfl, .classDecl⟩
    | @binding _ modifiers _ _ _ _ => cases val : modifiers.val <;> simp [Draft.form, val] at forms
    | _ => simp [Draft.form] at forms
  | @binding _ modifiers ty init₁ word numbers =>
    cases legible' with
    | binding word' numbers' =>
      rw [binding_text, binding_text] at text
      obtain ⟨rfl, rfl, suffixes⟩ := Surface.binding_unique word word' (returned_legible fun r member =>
        types r (List.mem_append_left _ (Option.mem_toList.2 member))) (returned_legible fun r member =>
        types' r (List.mem_append_left _ (Option.mem_toList.2 member))) text
      obtain rfl := toList_unique (values_unique sober sober' init)
      refine ⟨rfl, rfl, .binding (types_same suffixes) ?_⟩
      cases init₁ with
      | none => exact .none
      | some e => exact .some (sober e List.mem_cons_self).matches
    | _ => cases val : modifiers.val <;> simp [Draft.form, val] at forms
  | function opening newline parameters numbers =>
    cases legible' with
    | function opening' newline' parameters' numbers' =>
      rw [function_text, function_text] at text
      obtain ⟨rfl, lists, suffixes, rfl⟩ := Surface.signature_unique opening opening'
        (written_legible parameters fun p member =>
          types _ (List.mem_append_right _ (List.mem_append_left _ (List.mem_map_of_mem member))))
        (written_legible parameters' fun p member =>
          types' _ (List.mem_append_right _ (List.mem_append_left _ (List.mem_map_of_mem member))))
        (returned_legible fun r member => types r (List.mem_append_left _ (Option.mem_toList.2 member)))
        (returned_legible fun r member => types' r (List.mem_append_left _ (Option.mem_toList.2 member)))
        text
      have values := returns_unique sober sober' returns
      subst values
      exact ⟨rfl, rfl, .function (types_same suffixes) (parameters_same lists)
        (List.forall₂_same.2 fun e member => (sober e member).matches)⟩
    | @binding _ modifiers _ _ _ _ => cases val : modifiers.val <;> simp [Draft.form, val] at forms
    | _ => simp [Draft.form] at forms

theorem typeSuffix_same {a b : Option Ref} (same : Option.Rel (SameName t u) a b) :
    typeSuffix t a = typeSuffix u b := by
  cases same with
  | none => rfl
  | some name => rw [typeSuffix, typeSuffix, name]

theorem parameters_text {ps qs : List Parameter}
    (same : List.Forall₂ (Parameter.Matches (SameName t u)) ps qs) :
    ps.map (Parameter.text t) = qs.map (Parameter.text u) := by
  induction same with
  | nil => rfl
  | cons first _ ih =>
    have name : t.name _ = u.name _ := first.ty
    rw [List.map_cons, List.map_cons, ih, Parameter.text, Parameter.text, first.modifiers, first.name, name]

theorem values_same {xs ys : List TypedExpr} (same : List.Forall₂ (TypedExpr.Matches R) xs ys)
    (left : ∀ x ∈ xs, Sober x) (right : ∀ y ∈ ys, Sober y) : xs = ys := by
  induction same with
  | nil => rfl
  | cons first _ ih =>
    rw [List.forall_mem_cons] at left right
    rw [first.eq left.1.1 right.1.1 left.1.2 right.1.2, ih left.2 right.2]

theorem Kind.Matches.values {k l : Kind} (agree : k.Matches R l) (left : ∀ e ∈ k.values, Sober e)
    (right : ∀ e ∈ l.values, Sober e) : k.values = l.values := by
  cases agree with
  | root | enumeration | classDecl => rfl
  | binding _ inits =>
    cases inits with
    | none => rfl
    | some one => exact values_same (.cons one .nil) left right
  | function _ _ returns => exact values_same returns left right

theorem Kind.Matches.returns {k l : Kind} (agree : k.Matches R l) (left : ∀ e ∈ k.values, Sober e)
    (right : ∀ e ∈ l.values, Sober e) : k.returns = l.returns := by
  have values := agree.values left right
  cases agree with
  | function _ _ _ => exact values
  | _ => rfl

theorem Draft.Alike.printed {d d' : Draft} (alike : d.Alike t u d') (left : ∀ e ∈ d.kind.values, Sober e)
    (right : ∀ e ∈ d'.kind.values, Sober e) : d.text t = d'.text u ∧
      d.kind.initBlocks t = d'.kind.initBlocks u ∧ d.kind.returnBlocks t = d'.kind.returnBlocks u := by
  obtain ⟨name, kind, internal⟩ := d
  obtain ⟨name', kind', internal'⟩ := d'
  obtain ⟨rfl, rfl, agree⟩ := alike
  have values := agree.values left right
  cases agree with
  | root | enumeration | classDecl => exact ⟨rfl, rfl, rfl⟩
  | binding types inits =>
    obtain rfl := toList_unique values
    refine ⟨?_, List.map_congr_left fun e member => TypedExpr.block_same (left e member).1, rfl⟩
    simp only [Draft.text, Kind.text, typeSuffix_same types]
  | function types parameters returns =>
    obtain rfl : _ = _ := values
    refine ⟨?_, rfl, List.map_congr_left fun e member => ?_⟩
    · simp only [Draft.text, Kind.text, typeSuffix_same types, parameters_text parameters]
    · rw [returnBlock, returnBlock, TypedExpr.block_same (left e member).1]

end Frontend.Scope
