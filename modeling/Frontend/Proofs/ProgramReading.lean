import Frontend.Proofs.ExprReading
import Frontend.Proofs.NodeSoundness

-- The programs that are read are the ones of the grammar, derived from all the tokens of the listing.

namespace Frontend

open Grammar TokenSource Surface Feed

namespace Grammar

theorem program_gives {ts : List Token} : Gives program ts fun node _ =>
    ∃ children, node = .root children ∧ Declares .required (.nodes .scope children) ts [] := by
  apply (nodes_derived _ .scope ts (Nat.lt_succ_self _)).bind
  intro children behind declares
  apply (expectEnd_gives _).bind
  intro _ _ found
  obtain ⟨rfl, rfl⟩ := found
  exact .pure ⟨children, rfl, declares⟩

theorem Declares.unended_variable {keyword id : Token} {ty : Expr} {ts : List Token}
    (var : keyword.kind = .varKeyword) (named : id.kind = .identifier)
    (annotates : SpellsAnnotation (some ty) ts) :
    Declares .optional (.node .scope (.binding ⟨.var, id.text, some ty, Option.none, Option.none⟩))
      (keyword :: id :: ts) [] := by
  have introduces : Introduces keyword.kind .var := var ▸ .var
  rw [← List.append_nil (keyword :: id :: ts)]
  exact .binding introduces named annotates (.unended rfl)

end Grammar

theorem readProgram_listed {source : String} {tokens : List Token}
    (listed : tokensOf source = .ok tokens) :
    readProgram source = runOn program (feedOf tokens) source.utf8ByteSize :=
  runOn_listed (program_observed source) (fun _ _ => even_ground.program) listed _

theorem readProgram_feed {source : String} {node : Node} {tokens : List Token}
    (listed : tokensOf source = .ok tokens) :
    readProgram source = .ok node ↔ ∃ s,
      program (.empty source.utf8ByteSize) (feedOf tokens) = .ok node s := by
  rw [readProgram_listed listed]
  exact runOn_ok

theorem readProgram_declares {source : String} {node : Node} (read : readProgram source = .ok node) :
    ∃ tokens children, tokensOf source = .ok tokens ∧ node = .root children ∧
      Declares .required (.nodes .scope children) tokens [] := by
  obtain ⟨o, -, -, listed⟩ := runOn_taken (program_observed source _) (program_goesWith source _) read
  obtain ⟨s, read⟩ := (readProgram_feed listed).1 read
  obtain ⟨_, -, children, same, declares⟩ := program_gives _ node s read
  exact ⟨_, children, listed, same, declares⟩

-- A source is read as a program if and only if its tokens are listed and the grammar derives declarations
-- from all of them; those are what is read.
theorem readProgram_iff_declares (source : String) (node : Node) :
    readProgram source = .ok node ↔ ∃ tokens children, tokensOf source = .ok tokens ∧
      node = .root children ∧ Declares .required (.nodes .scope children) tokens [] := by
  refine ⟨readProgram_declares, fun found => ?_⟩
  obtain ⟨tokens, children, listed, rfl, declares⟩ := found
  exact (readProgram_feed listed).2 ⟨_, declares.program⟩

-- If a variable with a type could end in nothing, its type would be the end of a program.
theorem unended_variable_refused :
    (∃ tokens, tokensOf "var x: Integer" = .ok tokens ∧
      Declares .optional (.nodes .scope [.binding ⟨.var, "x", some (.plain "Integer"), none, none⟩])
        tokens []) ∧
    ∀ node, readProgram "var x: Integer" ≠ .ok node := by
  have listed : (tokensOf "var x: Integer").toOption = some
      [⟨.varKeyword, "var", none, .ofBounds 0 3⟩, ⟨.identifier, "x", none, .ofBounds 4 5⟩,
        ⟨.colon, ":", none, .ofBounds 5 6⟩, ⟨.identifier, "Integer", none, .ofBounds 7 14⟩] := by
    decide +kernel
  have refused : (readProgram "var x: Integer").isOk = false := by decide +kernel
  constructor
  · revert listed
    cases tokensOf "var x: Integer" with
    | error e => exact nofun
    | ok tokens =>
      intro listed
      cases listed
      have annotates : SpellsAnnotation (some (.plain "Integer"))
          [⟨.colon, ":", none, .ofBounds 5 6⟩, ⟨.identifier, "Integer", none, .ofBounds 7 14⟩] :=
        .type rfl (@Spells.name ⟨.identifier, "Integer", none, .ofBounds 7 14⟩ rfl)
      refine ⟨_, rfl, .more ?_ .none⟩
      exact @Declares.unended_variable _ ⟨.identifier, "x", none, .ofBounds 4 5⟩ _ _ rfl rfl annotates
  · intro node read
    rw [read] at refused
    cases refused

end Frontend
