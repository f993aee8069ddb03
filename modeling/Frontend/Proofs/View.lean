import Frontend.Proofs.NodeAgreement

-- A source seen through another one.  If the steps of a source are those of another one as far as a function
-- of its states shows, then all that is read from the one is read from the other.  Seen through itself, a
-- source shows that recursion needs no guard, because every rule takes tokens before it uses itself.

namespace Frontend

-- An outcome as it is seen on the states that `f` gives.
def seen {ε σ τ α : Type} (f : σ → τ) : EStateM.Result ε σ α → EStateM.Result ε τ α
  | .ok a s => .ok a (f s)
  | .error e s => .error e (f s)

theorem seen_id {ε σ α : Type} (x : EStateM.Result ε σ α) : seen id x = x := by
  cases x <;> rfl

theorem after_seen {σ τ α : Type} (f : σ → τ) (step : TokenStep σ α) :
    TokenStep.after (seen f step) = f (TokenStep.after step) := by
  cases step <;> rfl

namespace Grammar

open TokenSource TokenStep Surface

-- The same failure of two runs, but that each reports the end of its input where it is.
inductive AtEnds (eof eof' : Span) : ReadError → ReadError → Prop where
  | same {e : ReadError} : (∀ located, e = .grammatical located → located.value ≠ .unexpectedEnd) →
      AtEnds eof eof' e e
  | ended : AtEnds eof eof' (.grammatical ⟨eof, .unexpectedEnd⟩) (.grammatical ⟨eof', .unexpectedEnd⟩)

theorem AtEnds.isLexical {eof eof' : Span} {e e' : ReadError} (ends : AtEnds eof eof' e e') :
    e.isLexical = e'.isLexical := by
  cases ends <;> rfl

theorem AtEnds.eq {eof : Span} {e e' : ReadError} (ends : AtEnds eof eof e e') : e = e' := by
  cases ends <;> rfl

theorem AtEnds.inside {eof eof' span : Span} {e : SyntaxError} (inside : e ≠ .unexpectedEnd) :
    AtEnds eof eof' (.grammatical ⟨span, e⟩) (.grammatical ⟨span, e⟩) :=
  .same fun located same => by
    cases same
    exact inside

-- Whether a position is remembered changes only where it should.
class RemembersOnce (σ : Type) [TokenSource σ] : Prop where
  look : ∀ s : σ, (begin? (after (look s))).isSome = (begin? s).isSome
  take : ∀ s : σ, (begin? (after (take s))).isSome = (begin? s).isSome
  begins : ∀ {s s' : σ}, begin? s = some s' → begin? s' = none
  commit : ∀ s : σ, (begin? (commit s)).isSome
  reset : ∀ s : σ, (begin? (reset s)).isSome

variable {S T α : Type}

-- Any state;
def Any (_ : S) : Prop := True

-- a state without a remembered position,
def Free [TokenSource S] (s : S) : Prop := (begin? s).isSome

-- and one with it.
def Held [TokenSource S] (s : S) : Prop := begin? s = none

-- The second state is what `f` shows of the first one.
def viewed (f : S → T) (p : S → Prop) (s : S) (t : T) : Prop := f s = t ∧ p s

def viewFaults (eof eof' : Span) (f : S → T) (p : S → Prop) : Faults S T where
  eof := eof
  eof' := eof'
  both e e' s t := AtEnds eof eof' e e' ∧ viewed f p s t
  first _ _ := False

variable {eof eof' : Span}

theorem Agree.seen_eq {f : S → T} {p : S → Prop} {Q : α → α → S → T → Prop}
    {x : EStateM.Result ReadError S α} {y : EStateM.Result ReadError T α}
    (agree : Agree (viewFaults eof eof f p) Q x y) (exact : ∀ a b s t, Q a b s t → a = b ∧ f s = t) :
    seen f x = y := by
  cases agree with
  | ok good =>
    obtain ⟨rfl, rfl⟩ := exact _ _ _ _ good
    rfl
  | failed bad =>
    obtain ⟨ends, rfl, -⟩ := bad
    rw [ends.eq]
    rfl
  | first bad => exact bad.elim

theorem agree_viewed {f : S → T} {p : S → Prop} {step : S → TokenStep S α} {step' : T → TokenStep T α}
    {s : S} (same : seen f (step s) = step' (f s)) (kept : p (after (step s))) :
    Agree (viewFaults eof eof' f p) (Grammar.same (viewed f p)) (ofStep step eof s)
      (ofStep step' eof' (f s)) := by
  unfold ofStep
  rw [← same]
  generalize step s = x at kept
  cases x with
  | ok a s' => exact .ok ⟨rfl, rfl, kept⟩
  | error e s' => exact .failed ⟨.same nofun, rfl, kept⟩

variable [TokenSource S] [TokenSource T]

-- What `f` shows of a source are the steps of another one.
structure View (f : S → T) : Prop where
  look : ∀ s, seen f (look s) = look (f s)
  take : ∀ s, seen f (take s) = take (f s)
  begins : ∀ s, (begin? s).map f = begin? (f s)
  commit : ∀ s, f (commit s) = commit (f s)
  reset : ∀ s, f (reset s) = reset (f s)

structure Steady (p : S → Prop) : Prop where
  look : ∀ s, p s → p (after (look s))
  take : ∀ s, p s → p (after (take s))

theorem any_steady : Steady (S := S) Any := ⟨fun _ _ => trivial, fun _ _ => trivial⟩

theorem free_or_held (s : S) : Free s ∨ Held s := by
  cases begun : begin? s with
  | none => exact .inr begun
  | some _ => exact .inl (by rw [Free, begun]; rfl)

section Remembering

variable [RemembersOnce S]

theorem free_steady : Steady (S := S) Free where
  look s free := (RemembersOnce.look s).trans free
  take s free := (RemembersOnce.take s).trans free

theorem held_steady : Steady (S := S) Held where
  look s held := by
    have := RemembersOnce.look s
    rw [held] at this
    exact Option.isSome_eq_false_iff.1 this |> Option.isNone_iff_eq_none.1
  take s held := by
    have := RemembersOnce.take s
    rw [held] at this
    exact Option.isSome_eq_false_iff.1 this |> Option.isNone_iff_eq_none.1

end Remembering

theorem forget {f : S → T} {p : S → Prop} {x : EStateM.Result ReadError S α} {y : EStateM.Result ReadError T α}
    {s : S} {t : T}
    (agree : Agree (viewFaults eof eof' f p) (same (within (viewed f p) s t)) x y) :
    Agree (viewFaults eof eof' f Any) (same (within (viewed f Any) s t)) x y := by
  cases agree with
  | ok good => exact .ok ⟨good.1, ⟨good.2.1.1, trivial⟩, good.2.2⟩
  | failed bad => exact .failed ⟨bad.1, bad.2.1, trivial⟩
  | first bad => exact bad.elim

theorem alike_refl : ∀ x : Option Token, Option.Rel (Alike Eq) x x
  | none => .none
  | some _ => .some ⟨rfl, rfl, rfl, rfl⟩

namespace View

variable {f : S → T} (view : View f) {p : S → Prop}

include view

theorem lock (steady : Steady p) :
    Lock Eq (fun _ => True) (viewFaults eof eof' f p) (viewed f p) (viewed f p) where
  look s t start := by
    obtain ⟨rfl, kept⟩ := start
    apply (agree_viewed (view.look s) (steady.look s kept)).mono
    intro a b _ _ good
    exact ⟨good.1 ▸ alike_refl a, good.2⟩
  take s t start := by
    obtain ⟨rfl, kept⟩ := start
    apply (agree_viewed (view.take s) (steady.take s kept)).mono
    intro a b _ _ good
    obtain ⟨rfl, good⟩ := good
    cases a with
    | none => exact good
    | some a => exact ⟨⟨rfl, rfl, rfl, rfl⟩, fun _ => good⟩
  fault start near _ inside := by
    subst near
    exact ⟨.inside inside, start⟩
  ended start := ⟨.ended, start⟩

theorem held_sealed : Sealed (viewed f Held) := by
  intro s _ found
  obtain ⟨rfl, held⟩ := found
  refine ⟨held, ?_⟩
  rw [← view.begins, held]
  rfl

theorem begin_seen (s : S) : (begin? (f s)).isSome = (begin? s).isSome := by
  rw [← view.begins, Option.isSome_map]

-- What is shown remembers once, and so does what shows it.
theorem remembersOnce [RemembersOnce T] : RemembersOnce S where
  look s := by
    rw [← view.begin_seen, ← view.begin_seen s, ← RemembersOnce.look (f s), ← view.look]
    cases TokenSource.look s <;> rfl
  take s := by
    rw [← view.begin_seen, ← view.begin_seen s, ← RemembersOnce.take (f s), ← view.take]
    cases TokenSource.take s <;> rfl
  begins {s s'} begun := by
    have shown := view.begins s
    rw [begun] at shown
    have none := view.begins s'
    rw [RemembersOnce.begins shown.symm] at none
    exact Option.map_eq_none_iff.1 none
  commit s := by
    rw [← view.begin_seen, view.commit]
    exact RemembersOnce.commit _
  reset s := by
    rw [← view.begin_seen, view.reset]
    exact RemembersOnce.reset _

variable [RemembersOnce S]

theorem opens : Opens (viewFaults eof eof' f Free) (viewed f Free) (viewFaults eof eof' f Held)
    (viewed f Held) where
  eof := rfl
  eof' := rfl
  begins {s t} start := by
    obtain ⟨rfl, free⟩ := start
    obtain ⟨s', begun⟩ := Option.isSome_iff_exists.1 free
    refine ⟨s', f s', begun, ?_, rfl, RemembersOnce.begins begun⟩
    rw [← view.begins, begun]
    rfl
  commits {s t} start := ⟨(view.commit s).trans (congrArg _ start.1), RemembersOnce.commit s⟩
  alike bad := bad.1.isLexical
  fails {e e' s t} bad _ := ⟨bad.1, (view.reset s).trans (congrArg _ bad.2.1), RemembersOnce.reset s⟩
  resets {e e' s t} bad _ := ⟨(view.reset s).trans (congrArg _ bad.2.1), RemembersOnce.reset s⟩
  first bad := bad.elim

theorem generics_free : Keeps (viewFaults eof eof' f Free) (viewed f Free) (genericsAfterName typeExpr)
    (genericsAfterName typeExpr) :=
  (view.lock free_steady).generics
    (.inr ⟨_, _, view.opens, view.lock held_steady, view.held_sealed⟩) fun _ _ => trivial

theorem generics : Keeps (viewFaults eof eof' f Any) (viewed f Any) (genericsAfterName typeExpr)
    (genericsAfterName typeExpr) := by
  intro s _ found
  obtain ⟨rfl, -⟩ := found
  rcases free_or_held s with free | held
  · exact forget (view.generics_free s _ ⟨rfl, free⟩)
  · exact forget ((view.lock held_steady).generics (.inl view.held_sealed) (fun _ _ => trivial)
      s _ ⟨rfl, held⟩)

theorem generics_seen (s : S) :
    seen f (genericsAfterName typeExpr eof s) = genericsAfterName typeExpr eof (f s) :=
  (view.generics s _ ⟨rfl, trivial⟩).seen_eq fun _ _ _ _ good => ⟨good.1, good.2.1.1⟩

theorem types : Keeps (viewFaults eof eof' f Any) (viewed f Any) typeExpr typeExpr := by
  intro s _ found
  obtain ⟨rfl, -⟩ := found
  rcases free_or_held s with free | held
  · exact forget ((view.lock free_steady).typeExpr
      (.inr ⟨_, _, view.opens, view.lock held_steady, view.held_sealed⟩) (fun _ _ => trivial)
      s _ ⟨rfl, free⟩)
  · exact forget ((view.lock held_steady).typeExpr (.inl view.held_sealed) (fun _ _ => trivial)
      s _ ⟨rfl, held⟩)

theorem weave (resume : ∀ s, seen f (resumeText s) = resumeText (f s)) :
    Weave Eq (viewFaults eof eof' f Any) (fun _ => viewed f Any) (fun _ => viewed f Any)
      (fun _ => viewed f Any) (fun _ => viewed f Any) where
  look _ := (view.lock any_steady).look
  take depth s t start := ((view.lock any_steady).take s t start).mono fun a b s' t' good => by
    cases a <;> cases b
    · exact good
    · exact good
    · exact good
    · next x y =>
      refine ⟨good.1, ?_, (view.lock any_steady).fault (good.2 trivial) good.1.span⟩
      cases depth <;> cases x.kind <;> first | exact good.2 trivial | trivial
  fault := (view.lock any_steady).fault
  ended := (view.lock any_steady).ended
  afterText _ := (view.lock any_steady).look.mono fun _ _ _ _ good =>
    ⟨good.1, by split <;> exact good.2⟩
  resume _ s t start := by
    obtain ⟨rfl, -⟩ := start
    exact agree_viewed (resume s) trivial
  generics start _ := view.generics _ _ start

theorem ground (resume : ∀ s, seen f (resumeText s) = resumeText (f s)) :
    Ground Eq (viewFaults eof eof' f Any) (viewed f Any) :=
  ⟨(view.weave resume).outside, (view.weave resume).expr 0, view.types⟩

theorem program_seen (resume : ∀ s, seen f (resumeText s) = resumeText (f s)) (s : S) :
    seen f (program eof s) = program eof (f s) :=
  ((view.ground resume).program s _ ⟨rfl, trivial⟩).seen_eq fun _ _ _ _ good => ⟨good.1, good.2.1⟩

theorem wholeExpr_seen (resume : ∀ s, seen f (resumeText s) = resumeText (f s)) (s : S) :
    seen f (wholeExpr eof s) = wholeExpr eof (f s) :=
  ((view.weave resume).wholeExpr s _ ⟨rfl, trivial⟩).seen_eq fun _ _ _ _ good => ⟨good.1, good.2.1⟩

end View

theorem view_id : View (id : S → S) where
  look _ := seen_id _
  take _ := seen_id _
  begins _ := Option.map_id_apply
  commit _ := rfl
  reset _ := rfl

variable {ι κ : Type} {p : S → Prop}

-- Where every recursive use comes after a token, the guard of the recursion can be left out.
theorem recurse_unfold {step : (ι → Rule S α) → ι → Rule S α} {P : κ → S → S → Prop}
    {Q : κ → S → S → α → α → S → S → Prop} (steps : StepsAgree (viewFaults eof eof id p) P Q step step)
    (alone : ∀ c s t, P c s t → s = t) (exact : ∀ c s t a b u v, Q c s t a b u v → a = b ∧ u = v)
    (c : κ) (i : ι) (s : S) (start : P c s s) : recurse step i eof s = step (recurse step) i eof s := by
  rw [recurse]
  refine Eq.trans (seen_id _).symm
    ((steps s s _ _ (fun d j u v passed => ?_) c i start).seen_eq (exact c s s))
  obtain rfl := alone d u v passed.1
  simp only [passed.2.1, if_true]
  exact agree_recurse steps d j u u passed.1

theorem recurse_unfold_kept {step : (ι → Rule S α) → ι → Rule S α}
    (steps : StepsKeep (viewFaults eof eof id p) (fun _ : κ => viewed id p) step step) (c : κ) (i : ι) (s : S)
    (start : p s) : recurse step i eof s = step (recurse step) i eof s :=
  recurse_unfold steps.agree (fun _ _ _ same => same.1)
    (fun _ _ _ _ _ _ _ good => ⟨good.1, good.2.1.1⟩) c i s ⟨rfl, start⟩

section Unguarded

variable [RemembersOnce S] (s : S)

omit s in
theorem weave_id : Weave Eq (viewFaults eof eof' (id : S → S) Any) (fun _ => viewed id Any)
    (fun _ => viewed id Any) (fun _ => viewed id Any) (fun _ => viewed id Any) :=
  view_id.weave fun _ => seen_id _

omit s in
theorem ground_id : Ground Eq (viewFaults eof eof' (id : S → S) Any) (viewed id Any) :=
  view_id.ground fun _ => seen_id _

theorem typeExpr_eq (held : Held s) : typeExpr eof s = typeStep (fun _ => typeExpr) () eof s :=
  recurse_unfold_kept (κ := Unit) (fun s₀ t₀ _ _ keeps _ _ =>
    (view_id.lock held_steady).typeStep_sealed view_id.held_sealed (fun _ _ => trivial) s₀ t₀
      (keeps ())) () () s held

theorem afterTypes_eq (held : Held s) : afterCommas typeExpr eof s =
    commaStep typeExpr (fun _ => afterCommas typeExpr) () eof s := by
  have types : Keeps (viewFaults eof eof id Held) (viewed (id : S → S) Held) typeExpr typeExpr :=
    (view_id.lock held_steady).typeExpr_sealed view_id.held_sealed fun _ _ => trivial
  exact recurse_unfold_kept (κ := Unit) (fun s₀ t₀ _ _ keeps _ _ =>
    (view_id.lock held_steady).commaStep trivial types s₀ t₀ (keeps ())) () () s held

-- The same without a remembered position, where the list behind the name is tried.
theorem typeExpr_unfold : typeExpr eof s = typeStep (fun _ => typeExpr) () eof s := by
  rcases free_or_held s with free | held
  · rw [typeExpr, recurse]
    refine Eq.trans (seen_id _).symm (((view_id.lock free_steady).typeStep_opened view_id.opens
      (view_id.lock held_steady) (fun _ _ => trivial) ⟨rfl, free⟩ ?_).seen_eq
      fun _ _ _ _ good => ⟨good.1, good.2.1.1⟩)
    intro m n small _ u v kept
    have passed : weight u < weight s :=
      Nat.lt_of_le_of_lt (Nat.le_trans (weight_le_room u) kept.2.1) small
    simp only [passed, if_true]
    exact ((view_id.lock held_steady).roomed _ _).typeExpr_sealed (view_id.held_sealed.roomed _ _)
      (fun _ _ => trivial) u v kept
  · exact typeExpr_eq s held

omit [RemembersOnce S] in
theorem afterCommas_unfold {item : Rule S α}
    (items : Keeps (viewFaults eof eof id Any) (viewed id Any) item item) :
    afterCommas item eof s = commaStep item (fun _ => afterCommas item) () eof s :=
  recurse_unfold_kept (κ := Unit) (fun s₀ t₀ _ _ keeps _ _ =>
    (view_id.lock any_steady).commaStep trivial items s₀ t₀ (keeps ())) () () s trivial

omit [RemembersOnce S] in
theorem itemsUntil_unfold {item : Rule S α}
    (items : Keeps (viewFaults eof eof id Any) (viewed id Any) item item) (close : TokenKind) :
    itemsUntil close item eof s = itemStep close item (fun _ => itemsUntil close item) () eof s :=
  recurse_unfold_kept (κ := Unit) (fun s₀ t₀ _ _ keeps _ _ =>
    (view_id.lock any_steady).itemStep trivial close items s₀ t₀ (keeps ())) () () s trivial

theorem itemsUntil_eq (close : TokenKind) : itemsUntil close expr eof s =
    itemStep close expr (fun _ => itemsUntil close expr) () eof s :=
  itemsUntil_unfold s (weave_id.expr 0) close

theorem stringParts_eq : stringParts expr eof s =
    stringStep expr (fun _ => stringParts expr) () eof s :=
  recurse_unfold_kept (κ := Nat) (fun s₀ t₀ _ _ keeps depth _ =>
    weave_id.stringStep weave_id.expr s₀ t₀ keeps depth) 0 () s trivial

theorem suffixes_eq (e : Expr) : suffixes expr e eof s = suffixStep expr (suffixes expr) e eof s :=
  recurse_unfold_kept (κ := Nat) (fun s₀ t₀ _ _ keeps depth e =>
    weave_id.suffixStep weave_id.expr s₀ t₀ keeps depth e) 0 e s trivial

theorem operations_eq (level : Nat) (lhs : Expr) : operations exprFrom level lhs eof s =
    operationStep exprFrom level (operations exprFrom level) lhs eof s :=
  recurse_unfold_kept (κ := Nat) (fun s₀ t₀ _ _ keeps depth lhs =>
    weave_id.operationStep (fun depth level => weave_id.exprFrom depth level) s₀ t₀ keeps level
      depth lhs) 0 lhs s trivial

theorem exprFrom_eq (level : Nat) : exprFrom level eof s = exprStep exprFrom level eof s :=
  recurse_unfold_kept (κ := Nat) (fun s₀ t₀ _ _ keeps depth level =>
    weave_id.exprStep s₀ t₀ keeps depth level) 0 level s trivial

theorem prefixed_eq : prefixed expr eof s = prefixStep expr (fun _ => prefixed expr) () eof s := by
  have weave : Weave Eq (viewFaults eof eof (id : S → S) Any) _ _ _ _ := weave_id
  have operands := fun depth => (weave.expr depth).below s s
  exact recurse_unfold (weave_id.prefixStep operands) (fun _ _ _ same => same.1.1)
    (fun _ _ _ _ _ _ _ good => ⟨good.1, good.2.1.1⟩) 0 () s
    ⟨⟨rfl, trivial⟩, Nat.le_refl _, Nat.le_refl _⟩

theorem afterNames_eq : afterCommas identifier eof s =
    commaStep identifier (fun _ => afterCommas identifier) () eof s :=
  afterCommas_unfold s ground_id.name

theorem parametersUntil_eq (close : TokenKind) : itemsUntil close parameter eof s =
    itemStep close parameter (fun _ => itemsUntil close parameter) () eof s :=
  itemsUntil_unfold s ground_id.parameter close

theorem enumMembers_eq (enumName : String) (next : Option Int64) : enumMembers enumName next eof s =
    memberStep enumName (enumMembers enumName) next eof s :=
  recurse_unfold_kept (κ := Unit) (fun s₀ t₀ _ _ keeps _ next =>
    ground_id.memberStep enumName s₀ t₀ (keeps ()) next) () next s trivial

theorem declarations_eq (place : Place) : declarations place eof s = declarationStep declarations place eof s :=
  recurse_unfold_kept (κ := Unit) (fun s₀ t₀ _ _ keeps _ place =>
    ground_id.declarationStep s₀ t₀ (keeps ()) place) () place s trivial

end Unguarded

end Grammar

end Frontend
