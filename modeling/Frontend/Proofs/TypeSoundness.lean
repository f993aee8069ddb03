import Frontend.Proofs.Accessors
import Frontend.Proofs.ProgramReading

-- The types in the scope tree of a program are right.  What one declaration enters is sound when it has been
-- entered, and stays so: later declarations add entries, and change none but the variable or the function that
-- they are the inside of.

namespace Frontend.Typing

open Scope (Draft Kind Ref Tree TypedExpr)
open Scope.Tree
open Surface (BindingDecl FunctionDecl Modifiers Node)
open Grammar (Formed Place constructorDecl getterDecl)

variable {task : Task} {scope n k : Nat} {t t' : Tree} {d : Draft} {f : Draft → Draft}

-- The entry `n` stands in one that was there before it, and its types are right.
def SoundAt (t : Tree) (n : Nat) : Prop :=
  ∃ p d, p < n ∧ t.parent (.declared n) = some (.declared p) ∧ t.draft? n = some d ∧
    t.Sound (some (.declared p)) d.kind

theorem sound_same {outer : Option Ref} {kind : Kind} (same : t'.inEnum outer = t.inEnum outer)
    (sound : t.Sound outer kind) : t'.Sound outer kind := by
  cases kind with
  | binding modifiers ty init =>
    unfold Scope.Tree.Sound at *
    rw [same]
    exact sound
  | _ => exact sound

theorem SoundAt.kept (sound : SoundAt t n) (kept : Kept t t') (small : n < t.size) : SoundAt t' n := by
  obtain ⟨p, d, earlier, stands, is, sound⟩ := sound
  refine ⟨p, d, earlier, (kept.parent n small).trans stands, (kept.draft? n small).trans is, ?_⟩
  exact sound_same (kept.inEnum (Nat.lt_trans earlier small)) sound

theorem SoundAt.modify (sound : SoundAt t n) (mild : Mild f) (other : n ≠ k) :
    SoundAt (t.modify k f) n := by
  obtain ⟨p, d, earlier, stands, is, sound⟩ := sound
  refine ⟨p, d, earlier, parent_modify.trans stands, ?_, sound_same mild.inEnum sound⟩
  rw [draft?_modify, if_neg other]
  exact is

-- An entry that was added, and changed when its inside had been entered.
theorem SoundAt.entered (within : scope < t.size) (kept : Kept (t.push scope d) t') (mild : Mild f)
    (sound : t.Sound (some (.declared scope)) (f d).kind) : SoundAt (t'.modify t.size f) t.size := by
  have old : scope < (t.push scope d).size := within_push within
  refine ⟨scope, f d, within, kept.parent_entered, kept.draft?_entered, ?_⟩
  apply sound_same _ sound
  rw [mild.inEnum, kept.inEnum old, Kept.push.inEnum within]

theorem SoundAt.push (within : scope < t.size) (sound : t.Sound (some (.declared scope)) d.kind) :
    SoundAt (t.push scope d) t.size := by
  exact ⟨scope, d, within, Kept.refl.parent_pushed, Kept.refl.draft?_pushed,
    sound_same (Kept.push.inEnum within) sound⟩

-- From the entry `start` on, the types are right.
def SoundFrom (start : Nat) (t : Tree) : Prop := ∀ n, start ≤ n → n < t.size → SoundAt t n

theorem SoundFrom.none : SoundFrom t.size t := fun _ new small => absurd small (Nat.not_lt.2 new)

theorem SoundFrom.trans {start : Nat} (first : SoundFrom start t) (kept : Kept t t')
    (others : SoundFrom t.size t') : SoundFrom start t' := by
  intro n new small
  rcases Nat.lt_or_ge n t.size with old | later
  · exact (first n new old).kept kept old
  · exact others n later small

theorem SoundFrom.push (within : scope < t.size)
    (sound : t.Sound (some (.declared scope)) d.kind) : SoundFrom t.size (t.push scope d) := by
  intro n new small
  rw [size_push] at small
  obtain rfl : n = t.size := by omega
  exact .push within sound

theorem SoundFrom.around (within : scope < t.size) (kept : Kept (t.push scope d) t')
    (inner : SoundFrom (t.push scope d).size t') (sound : t.Sound (some (.declared scope)) d.kind) :
    SoundFrom t.size t' :=
  (SoundFrom.push within sound).trans kept inner

theorem SoundFrom.entered (within : scope < t.size) (kept : Kept (t.push scope d) t')
    (inner : SoundFrom (t.push scope d).size t') (mild : Mild f)
    (sound : t.Sound (some (.declared scope)) (f d).kind) : SoundFrom t.size (t'.modify t.size f) := by
  intro n new small
  rw [size_modify] at small
  rcases Nat.eq_or_lt_of_le new with rfl | later
  · exact .entered within kept mild sound
  · have inside : (t.push scope d).size ≤ n := by rw [size_push]; exact later
    exact (inner n inside small).modify mild (Nat.ne_of_gt later)

theorem SoundAt.entry {e : Scope.Entry} (sound : SoundAt t n) (found : t.get? (.declared n) = some e) :
    t.Sound e.parent e.kind := by
  obtain ⟨p, d, -, stands, is, sound⟩ := sound
  rw [Scope.Tree.parent, found] at stands
  rw [draft?, found] at is
  cases is
  rw [show e.parent = some (.declared p) from stands]
  exact sound

theorem sound_builtin (which : Scope.Builtin) : t.Sound which.entry.parent which.entry.kind := by
  cases which with
  | type primitive => trivial
  | integerAdd => exact List.forall_mem_nil _

theorem typeInit_wellTyped {init : Option Surface.Expr} {value : Option TypedExpr}
    (operatorless : Operatorless t) (typed : typeInit t init = .ok value) :
    ∀ e ∈ value, e.WellTyped := by
  intro e member
  cases init with
  | none => cases typed; cases member
  | some written =>
    obtain ⟨e', meant, same⟩ := bind_eq_ok.1 typed
    cases same
    obtain rfl := Option.some.inj member
    exact typeExpr_wellTyped operatorless written meant

-- A value decides the type, or agrees with the one that is declared.
theorem known_value {name : String} {declared : Option Ref} {e : TypedExpr}
    (expected : expectDeclared t name declared (some e) = .ok ()) :
    declared.or (some e.ty) = some e.ty := by
  cases declared with
  | none => rfl
  | some ty => exact congrArg some (expectType_ok expected)

theorem sound_binding {outer : Option Ref} {name : String} {modifiers : Modifiers} {ty : Ref}
    {init : Option Surface.Expr} {declared : Option Ref} {value : Option TypedExpr}
    (outside : t.inEnum outer = false) (operatorless : Operatorless t)
    (typed : typeInit t init = .ok value) (expected : expectDeclared t name declared value = .ok ())
    (final : ∀ known, declared.or (value.map TypedExpr.ty) = some known → ty = known) :
    t.Sound outer (.binding modifiers (some ty) value) := by
  refine ⟨rfl, typeInit_wellTyped operatorless typed, ?_⟩
  simp only [outside, Bool.false_eq_true, if_false]
  intro e member
  cases member
  exact congrArg some (final e.ty (known_value expected))

theorem sound_member {outer : Ref} {decl : BindingDecl} {value : Int64}
    (inside : t.inEnum (some outer) = true) : t.Sound (some outer) (memberDraft outer decl value).kind := by
  simp only [memberDraft, Scope.Tree.Sound, inside, if_true]
  refine ⟨rfl, ?_, trivial, value, rfl⟩
  intro e member
  cases member
  rfl

def Task.ofEnum : Task → Bool
  | .members _ _ => true
  | _ => false

theorem inEnum_push : (t.push scope d).inEnum (some (.declared t.size)) =
    decide (d.kind = .enumeration) := by
  rw [inEnum_eq, draft?_push, if_pos rfl]
  rfl

theorem Enters.sound (enters : Enters task scope t t') (within : scope < t.size)
    (operatorless : Operatorless t') (place : t.inEnum (some (.declared scope)) = task.ofEnum) :
    SoundFrom t.size t' := by
  induction enters with
  | none | memberless | bodyEnd => exact .none
  | more first others ih ih' | bodyBinding first others ih ih' =>
    have within' := Nat.lt_of_lt_of_le within first.kept.size
    have place' := (first.kept.inEnum within).trans place
    exact (ih within (others.kept.operatorless operatorless) place).trans others.kept
      (ih' within' operatorless place')
  | enumeration inner ih | classDecl inner ih =>
    exact .around within inner.kept (ih (by simp) operatorless inEnum_push) trivial
  | member _ inner ih =>
    refine .around within inner.kept (ih (within_push within) operatorless ?_) ?_
    · exact (Kept.push.inEnum within).trans place
    · exact sound_member place
  | plain resolved typed expected known =>
    have before := Kept.push.operatorless operatorless
    refine .push within (sound_binding place before typed expected ?_)
    intro ty same
    rw [known] at same
    exact Option.some.inj same
  | @accessor _ _ _ _ _ _ _ final _ _ _ resolved typed expected inner known ih =>
    have mild := withType_mild final
    have operatorless := mild.operatorless.1 operatorless
    have before := (Kept.push.trans inner.kept).operatorless operatorless
    have inside := ih (within_push within) operatorless ((Kept.push.inEnum within).trans place)
    refine .entered within inner.kept inside mild (sound_binding place before typed expected ?_)
    intro ty same
    rw [same] at known
    exact (Option.some.inj known).symm
  | standing _ ih => exact ih within operatorless place
  | @function _ _ _ _ _ _ _ _ results _ _ _ resolved typed inner ih =>
    have mild := withResults_mild results.returnType results.returns
    have operatorless := mild.operatorless.1 operatorless
    have results := inner.keeps operatorless Results.add_sound
    exact .entered within inner.kept (ih (by simp) operatorless inEnum_push) mild (results nofun)
  | bodyReturn _ _ _ ih => exact ih within operatorless place

end Frontend.Typing

namespace Frontend

open Scope (Ref Tree)
open Scope.Tree
open Typing Grammar

-- A program that has a meaning is written in the form of the grammar, and its declarations are entered one
-- after the other into the empty tree.
theorem compile_enters {source : String} {c : Compilation} (compiled : compile source = .ok c) :
    ∃ children, c.written = .root children ∧ (∀ node ∈ children, Stands node) ∧
      Enters (.nodes children) 0 Tree.empty c.meaning := by
  obtain ⟨read, typed⟩ := compile_eq_ok.1 compiled
  obtain ⟨tokens, children, -, same, declares⟩ := readProgram_declares read
  rw [same] at typed
  have formed := declares.formed
  exact ⟨children, same, fun node member => .inl ⟨_, formed node member⟩, declareAll_enters children typed⟩

theorem operatorless_empty : Tree.empty.Operatorless := by
  intro n d stands function
  cases n with
  | zero => cases stands; cases function
  | succ n => cases stands

-- In the scope tree of a program the types are right.
--
-- Every variable has the type of its value, and every function that of each value it gives back; a member of
-- an enum has its enum for a type and a number for a value.  A variable with a getter has the type that the
-- getter gives back, and the getter is the next entry and the next child of its scope.
theorem compiled_types_sound {source : String} {c : Compilation} (compiled : compile source = .ok c) :
    (∀ id e, c.meaning.get? id = some e → c.meaning.Sound e.parent e.kind) ∧
    ∀ site ∈ nodeSites 0 1 c.written, ∀ decl getter, site.declaration = .binding decl →
      decl.getter = some getter →
      Accessor c.meaning site.number site.scope decl getter ∧
      ∃ before after, c.meaning.children (.declared site.scope) =
        before ++ .declared site.number :: .declared (site.number + 1) :: after := by
  obtain ⟨children, written, formed, enters⟩ := compile_enters compiled
  have rooted : 0 < Tree.empty.size := Tree.empty.rooted
  have operatorless := enters.operatorless formed operatorless_empty
  constructor
  · have sound := enters.sound rooted operatorless rfl
    intro id e found
    cases id with
    | builtin which =>
      cases found
      exact sound_builtin which
    | declared n =>
      cases n with
      | zero =>
        have root := enters.kept.draft? 0 rooted
        rw [draft?, found] at root
        have kind : e.kind = .root := congrArg Scope.Draft.kind (Option.some.inj root)
        rw [kind]
        trivial
      | succ n =>
        have small : n + 1 < c.meaning.size := get?_isSome.1 (by rw [found]; rfl)
        exact (sound (n + 1) (Nat.succ_pos n) small).entry found
  · intro site member decl getter binding gets
    rw [written] at member
    have accessors := enters.accessors rooted Tree.nested_empty operatorless formed
    obtain ⟨-, accessor⟩ := accessors site member decl getter binding gets
    refine ⟨accessor, ?_⟩
    obtain ⟨_, _, -, -, stands, stands'⟩ := accessor
    exact (enters.nested rooted Tree.nested_empty).siblings stands stands'

-- A getter with a type, inside of a class and with a variable of its own.
theorem compiled_types_sound_nested :
    ∃ c, compile "enum E { A } class C { var x: Integer get { val y = 1; return 2 + 3; } }" = .ok c ∧
      (∀ id e, c.meaning.get? id = some e → c.meaning.Sound e.parent e.kind) ∧
      (∃ decl getter, ⟨4, 3, .binding decl⟩ ∈ nodeSites 0 1 c.written ∧ decl.getter = some getter ∧
        Accessor c.meaning 4 3 decl getter) ∧
      ∃ before after, c.meaning.children (.declared 3) =
        before ++ .declared 4 :: .declared 5 :: after := by
  have read : ((compile
        "enum E { A } class C { var x: Integer get { val y = 1; return 2 + 3; } }").toOption.map
      Compilation.written) = some (.root [.enumeration "E" [.binding (memberDecl "E" "A" 0)],
        .classDecl "C" none [.binding ⟨.var, "x", some (.plain "Integer"), none,
          some (getterDecl "x" (some (.plain "Integer")) false
            [.binding ⟨.readOnly, "y", none, some (.literal (.integer 1)), none⟩,
              .ret (.binary .add (.literal (.integer 2)) (.literal (.integer 3)))])⟩]]) := by
    decide +kernel
  cases compiled : compile
      "enum E { A } class C { var x: Integer get { val y = 1; return 2 + 3; } }" with
  | error e => rw [compiled] at read; cases read
  | ok c =>
    rw [compiled] at read
    have written := Option.some.inj read
    obtain ⟨types, accessors⟩ := compiled_types_sound compiled
    refine ⟨c, rfl, types, ?_⟩
    rw [written] at accessors ⊢
    obtain ⟨accessor, siblings⟩ := accessors _ (.tail _ (.tail _ (.tail _ (.head _)))) _ _ rfl rfl
    exact ⟨⟨_, _, .tail _ (.tail _ (.tail _ (.head _))), rfl, accessor⟩, siblings⟩

end Frontend
