import Frontend.Proofs.Locality

-- Types and expressions are read alike in front of anything, if a token that is left of them ends all lists
-- of types.

namespace Frontend.Grammar

open Surface TokenSource Feed

variable {eof : Span} {behind : List Answer} {ts us : List Token}

-- Tokens of types end before the token that settles them.
theorem Settles.passes {answers : List Answer} (settles : Settles ts) (types : ∀ u ∈ us, u.kind ∈ typeKinds)
    (same : ts.map .ok ++ behind = us.map .ok ++ answers) :
    ∃ v vs, ts = us ++ v :: vs ∧ answers = (v :: vs).map .ok ++ behind := by
  induction us generalizing ts with
  | nil =>
    cases ts with
    | nil => exact absurd settles settles_nil
    | cons t ts => exact ⟨t, ts, rfl, same.symm⟩
  | cons u us ih =>
    obtain ⟨first, others⟩ := List.forall_mem_cons.1 types
    cases ts with
    | nil => exact absurd settles settles_nil
    | cons t ts =>
      obtain ⟨equal, left⟩ := List.cons.inj same
      cases equal
      have later : Settles ts := by
        obtain ⟨t, within, other⟩ := settles
        rcases List.mem_cons.1 within with rfl | within
        · exact absurd first other
        · exact ⟨t, within, other⟩
      obtain ⟨v, vs, rfl, found⟩ := ih later others left
      exact ⟨v, vs, rfl, found⟩

theorem generics_settled (settles : Settles ts) (open_ : ¬ Encloses ts) :
    genericsAfterName typeExpr eof (feedBefore ts behind) = .ok none (feedBefore ts behind) := by
  refine generics_neither ?_ ?_
  · intro args rest begins
    obtain ⟨us, spells, same⟩ := begins
    obtain ⟨v, vs, rfl, -⟩ := settles.passes spells.kinds same
    exact open_ ⟨args, us, v :: vs, spells, rfl⟩
  · intro e rest breaks
    obtain ⟨us, more, args, others, spells, -, same, -⟩ := breaks
    have types : ∀ u ∈ us, u.kind ∈ typeKinds := fun u within => spells.kinds u (List.mem_append_left _ within)
    obtain ⟨v, vs, -, equal⟩ := settles.passes types same
    cases equal

theorem generics_local :
    Local behind False never (genericsAfterName typeExpr) (genericsAfterName typeExpr) := by
  intro _ _ ts found s read
  by_cases closed : Encloses ts
  · obtain ⟨args, list, rest, spells, rfl⟩ := closed
    rw [generics_tokens spells] at read
    cases read
    refine ⟨list, rest, rfl, rfl, nofun, fun _ => generics_begins ⟨list, spells, ?_⟩⟩
    rw [List.map_append, List.append_assoc]
  · rw [generics_none closed] at read
    cases read
    exact ⟨[], ts, rfl, rfl, nofun, (·.elim nofun (generics_settled · closed))⟩

theorem typeExpr_local : Local behind False never typeExpr typeExpr :=
  .congr (fun _ => typeExpr_unfold) (fun _ => typeExpr_unfold)
    (identifier_local.andThen fun _ => generics_local.andThen fun _ => .give)

variable {α : Type} {item item' : Rule Feed α}

theorem afterCommas_local (items : Local behind False never item item') :
    Local behind False never (afterCommas item) (afterCommas item') := by
  refine .recurse (fun k k' later _ => (accept_local .comma).andThen fun comma => ?_) ()
  cases comma with
  | none => exact .give
  | some _ => exact items.andThen fun _ => (later ()).andThen fun _ => .give

theorem itemsUntil_local (close : TokenKind) (items : Local behind False never item item') :
    Local behind False never (itemsUntil close item) (itemsUntil close item') := by
  refine .recurse (fun k k' later _ => (isNext_local close).andThen fun closes => ?_) ()
  cases closes with
  | true => exact .give
  | false =>
    refine items.andThen fun _ => (accept_local .comma).andThen fun comma => ?_
    cases comma with
    | none => exact .give
    | some _ => exact (later ()).andThen fun _ => .give

section Operands

variable {x x' : Rule Feed Expr} (inner : Local behind False never x x')

include inner

theorem stringParts_local : Local behind False never (stringParts x) (stringParts x') := by
  refine .recurse (fun k k' later _ => ?_) ()
  have text : Local behind False never stringText stringText :=
    (expect_local .stringText).andThen fun _ =>
      (accept_local .stringEnd).andThen fun _ => .give
  have resume : Local behind False never (ofStep resumeText) (ofStep resumeText) := by
    intro _ _ ts _ _ equal
    cases equal
    exact ⟨[], ts, rfl, rfl, nofun, fun _ => rfl⟩
  have leave : Local behind False never leaveSegment leaveSegment :=
    (expect_local .rightBrace).andThen fun _ => resume
  refine text.andThen fun found => ?_
  obtain ⟨written, _ | _⟩ := found
  · exact inner.andThen fun _ => leave.andThen fun _ => (later ()).andThen fun _ => .give
  · exact .give

theorem stringExpr_local : Local behind False never (stringExpr x) (stringExpr x') := by
  refine (stringParts_local inner).andThen fun found => ?_
  obtain ⟨parts, _ | _⟩ := found <;> exact .give

theorem enclosed_local (close : TokenKind) {f f' : List Expr → Rule Feed α}
    (then_ : ∀ es, Local behind False never (f es) (f' es)) :
    Local behind False never (do let es ← itemsUntil close x; let _ ← expect close; f es)
      (do let es ← itemsUntil close x'; let _ ← expect close; f' es) :=
  (itemsUntil_local close inner).andThen fun es =>
    (expect_local close).andThen fun _ => then_ es

theorem primaryAfter_local (t : Token) :
    Local behind False never (primaryAfter x t) (primaryAfter x' t) := by
  unfold primaryAfter
  split
  · split
    · exact .give
    · exact .failAt
  · split
    · exact .give
    · exact .failAt
  · split
    · exact .give
    · exact .failAt
  · split
    · exact .give
    · exact .failAt
  · exact generics_local.andThen fun _ => .give
  · exact inner.andThen fun _ => (expect_local _).andThen fun _ => .give
  · exact enclosed_local inner _ fun _ => .give
  · exact stringExpr_local inner
  · exact .failAt

theorem suffixes_local (e : Expr) : Local behind False never (suffixes x e) (suffixes x' e) := by
  refine .recurse (fun k k' later e => currentKind_local.andThen fun kind => ?_) e
  split
  · exact advance_local.andThen fun _ => identifier_local.andThen fun _ => later _
  · exact advance_local.andThen fun _ => enclosed_local inner _ fun _ => later _
  · exact advance_local.andThen fun _ => enclosed_local inner _ fun _ => later _
  · exact .give

theorem postfixed_local : Local behind False never (postfixed x) (postfixed x') :=
  (advance_local.andThen (primaryAfter_local inner)).andThen (suffixes_local inner)

theorem rangeExpr_local : Local behind False never (rangeExpr x) (rangeExpr x') := by
  refine (postfixed_local inner).andThen fun first =>
    (accept_local .dotDot).andThen fun points => ?_
  cases points with
  | none => exact .give
  | some _ => exact (postfixed_local inner).andThen fun _ => .give

theorem prefixed_local : Local behind False never (prefixed x) (prefixed x') := by
  refine .recurse (fun k k' later _ => (accept_local .bang).andThen fun bang => ?_) ()
  cases bang with
  | some _ => exact (later ()).andThen fun _ => .give
  | none =>
    refine (accept_local .minus).andThen fun minus => ?_
    cases minus with
    | some _ => exact (later ()).andThen fun _ => .give
    | none => exact rangeExpr_local inner

end Operands

theorem operations_local {x x' : Nat → Rule Feed Expr}
    (operand : ∀ level, Local behind False never (x level) (x' level)) (level : Nat) (e : Expr) :
    Local behind False never (operations x level e) (operations x' level e) := by
  refine .recurse (fun k k' later e => currentKind_local.andThen fun kind => ?_) e
  split
  · exact .give
  · split
    · exact .give
    · exact advance_local.andThen fun _ => (operand _).andThen fun _ => later _

theorem expr_local : Local behind False never expr expr :=
  .recurse (fun _ _ later level => (prefixed_local (later 0)).andThen (operations_local later level)) 0

end Frontend.Grammar
