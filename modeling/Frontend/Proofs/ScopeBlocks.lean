import Frontend.Proofs.Bisimulation
import Frontend.Proofs.LegibleEntries
import Frontend.Proofs.PrintedTrees
import Frontend.Proofs.ScopeRules

-- What is printed for the entries of a scope tree, and that it tells the entries up to what they refer to,
-- which is printed by its name.

namespace Frontend.Scope

open Text
open Surface (Modifiers genericsText lead lead_front)

variable {t u : Tree}

def TypedExpr.block (t : Tree) : TypedExpr → Block
  | literal v ty => .mk (v.literalText ++ ": " ++ t.name ty) []
  | binary op lhs rhs ty =>
    .mk ("binary " ++ op.name ++ ": " ++ t.name ty) [lhs.block t, rhs.block t]

theorem TypedExpr.outline_eq (t : Tree) : ∀ (e : TypedExpr) (depth : Nat),
    e.outline t depth = (e.block t).lines depth
  | literal v ty, depth => by rw [outline, block, Block.lines, Block.linesAll]
  | binary op lhs rhs ty, depth => by
    rw [outline, block, Block.lines, Block.linesAll, Block.linesAll_single, lhs.outline_eq t (depth + 1),
      rhs.outline_eq t (depth + 1), List.cons_append]

def returnBlock (t : Tree) (e : TypedExpr) : Block := .mk "return" [e.block t]

def Kind.initBlocks (t : Tree) : Kind → List Block
  | binding _ _ init => init.toList.map (TypedExpr.block t)
  | _ => []

def Kind.returnBlocks (t : Tree) (kind : Kind) : List Block := kind.returns.map (returnBlock t)

theorem Kind.outlineInit_eq (t : Tree) (depth : Nat) (kind : Kind) :
    kind.outlineInit t depth = Block.linesAll depth (kind.initBlocks t) := by
  cases kind with
  | binding modifiers ty init =>
    cases init with
    | none => rfl
    | some e =>
      rw [outlineInit, initBlocks, Option.toList_some, List.map_cons, List.map_nil, Block.linesAll_single,
        TypedExpr.outline_eq]
  | _ => rfl

theorem Kind.outlineReturns_eq (t : Tree) (depth : Nat) (kind : Kind) :
    kind.outlineReturns t depth = Block.linesAll depth (kind.returnBlocks t) := by
  cases kind with
  | function static generics returnType parameters returns =>
    rw [outlineReturns, returnBlocks, Kind.returns]
    induction returns with
    | nil => rw [List.flatMap_nil, List.map_nil, Block.linesAll]
    | cons e es ih =>
      rw [List.flatMap_cons, List.map_cons, Block.linesAll, ih, returnBlock, Block.lines,
        Block.linesAll_single, TypedExpr.outline_eq]
  | _ => rfl

mutual

def Branch.block (t : Tree) : Branch → Block
  | .node _ entry branches =>
    .mk (entry.text t) (entry.kind.initBlocks t ++ (Branch.blocks t branches ++ entry.kind.returnBlocks t))

def Branch.blocks (t : Tree) : List Branch → List Block
  | [] => []
  | b :: bs => b.block t :: Branch.blocks t bs

end

mutual

theorem Branch.outline_eq (t : Tree) : ∀ (b : Branch) (depth : Nat),
    b.outline t depth = (b.block t).lines depth
  | .node _ entry branches, depth => by
    rw [Branch.outline, Branch.block, Block.lines, Block.linesAll_append, Block.linesAll_append,
      Kind.outlineInit_eq, Kind.outlineReturns_eq, Branch.outlineAll_eq t branches (depth + 1),
      List.cons_append, List.cons_append, List.append_assoc]

theorem Branch.outlineAll_eq (t : Tree) : ∀ (bs : List Branch) (depth : Nat),
    Branch.outlineAll t depth bs = Block.linesAll depth (Branch.blocks t bs)
  | [], depth => by rw [Branch.outlineAll, Branch.blocks, Block.linesAll]
  | b :: bs, depth => by
    rw [Branch.outlineAll, Branch.blocks, Block.linesAll, Branch.outline_eq t b depth,
      Branch.outlineAll_eq t bs depth]

end

theorem Tree.text_eq (t : Tree) :
    t.text = renderLines (Block.linesAll 0 (Branch.blocks t t.rootBranch.parts)) := by
  rw [Tree.text, Branch.outlineAll_eq]

end Frontend.Scope
