import Frontend.Scope.Branch
import Frontend.Surface.Outline

-- Scope trees, printed with one line for each entry and each part of an expression.  The root itself and
-- the built-in entries are not shown.

namespace Frontend.Scope

open Text
open Surface (genericsText)

def TypedExpr.outline (t : Tree) (depth : Nat) : TypedExpr → List Line
  | literal v ty => [⟨depth, v.literalText ++ ": " ++ t.name ty⟩]
  | binary op lhs rhs ty =>
    ⟨depth, "binary " ++ op.name ++ ": " ++ t.name ty⟩ ::
      TypedExpr.outline t (depth + 1) lhs ++ TypedExpr.outline t (depth + 1) rhs

def typeSuffix (t : Tree) : Option Ref → String
  | none => ""
  | some ty => ": " ++ t.name ty

def Parameter.text (t : Tree) (p : Parameter) : String :=
  p.modifiers.text ++ " " ++ p.name ++ ": " ++ t.name p.ty

-- The line of an entry, up to the mark of those that were made up.
def Kind.text (t : Tree) (name : String) : Kind → String
  | root => "root"
  | enumeration => "enum " ++ name
  | classDecl generics => "class " ++ name ++ genericsText generics
  | binding modifiers ty _ => modifiers.text ++ " " ++ name ++ typeSuffix t ty
  | function _ generics returnType parameters _ =>
    "function " ++ name ++ genericsText generics ++ "("
      ++ ", ".intercalate (parameters.map (Parameter.text t)) ++ ")" ++ typeSuffix t returnType

def Entry.text (t : Tree) (e : Entry) : String :=
  e.kind.text t e.name ++ (if e.internal then " (internal)" else "")

-- The lines of an initial value, which stand before those of the children.
def Kind.outlineInit (t : Tree) (depth : Nat) : Kind → List Line
  | binding _ _ (some init) => init.outline t depth
  | _ => []

-- The lines of the values given back, which stand behind those of the children.
def Kind.outlineReturns (t : Tree) (depth : Nat) : Kind → List Line
  | function _ _ _ _ returns =>
    returns.flatMap fun e => ⟨depth, "return"⟩ :: e.outline t (depth + 1)
  | _ => []

mutual

def Branch.outline (t : Tree) (depth : Nat) : Branch → List Line
  | .node _ entry branches =>
    ⟨depth, entry.text t⟩ :: entry.kind.outlineInit t (depth + 1)
      ++ Branch.outlineAll t (depth + 1) branches ++ entry.kind.outlineReturns t (depth + 1)

def Branch.outlineAll (t : Tree) (depth : Nat) : List Branch → List Line
  | [] => []
  | b :: bs => Branch.outline t depth b ++ Branch.outlineAll t depth bs

end

def Tree.text (t : Tree) : String := renderLines (Branch.outlineAll t 0 t.rootBranch.parts)

end Frontend.Scope
