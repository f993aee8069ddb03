import Frontend.Surface.Node
import Frontend.Text.Outline

-- Written expressions and declarations, printed as trees with one line for each part.  A type stands on the
-- line of what it belongs to.

namespace Frontend.Surface

open Text

mutual

-- A type on a single line.  What cannot be a type is only described.
def Expr.typeText : Expr → String
  | .ident name none => name
  | .ident name (some args) => name ++ "<" ++ ", ".intercalate (Expr.typeTexts args) ++ ">"
  | e => "<" ++ e.describe ++ ">"

def Expr.typeTexts : List Expr → List String
  | [] => []
  | x :: xs => Expr.typeText x :: Expr.typeTexts xs

end

mutual

def Expr.outline (depth : Nat) : Expr → List Line
  | .literal v => [⟨depth, v.literalText⟩]
  | .ident name generics => [⟨depth, "ident " ++ (Expr.ident name generics).typeText⟩]
  | .unary op x => ⟨depth, "unary " ++ op.name⟩ :: Expr.outline (depth + 1) x
  | .binary op x y =>
    ⟨depth, "binary " ++ op.name⟩ :: Expr.outline (depth + 1) x ++ Expr.outline (depth + 1) y
  | .grouping x => ⟨depth, "paren"⟩ :: Expr.outline (depth + 1) x
  | .call f args =>
    ⟨depth, "call"⟩ :: Expr.outline (depth + 1) f ++ Expr.outlineAll (depth + 1) args
  | .interpolation parts => ⟨depth, "interpolation"⟩ :: Expr.outlineAll (depth + 1) parts

def Expr.outlineAll (depth : Nat) : List Expr → List Line
  | [] => []
  | x :: xs => Expr.outline depth x ++ Expr.outlineAll depth xs

end

def Expr.tree (e : Expr) : String := renderLines (e.outline 0)

def typeSuffix : Option Expr → String
  | none => ""
  | some ty => ": " ++ ty.typeText

def genericsText (names : List String) : String :=
  if names = [] then "" else "<" ++ ", ".intercalate names ++ ">"

def Parameter.text (p : Parameter) : String :=
  p.modifiers.text ++ " " ++ p.name ++ ": " ++ p.ty.typeText

def signatureText (name : String) (parameters : List Parameter) (returnType : Option Expr)
    (internal : Bool) : String :=
  "function " ++ name ++ "(" ++ ", ".intercalate (parameters.map Parameter.text) ++ ")"
    ++ typeSuffix returnType ++ (if internal then " (internal)" else "")

def outlineInit (depth : Nat) : Option Expr → List Line
  | none => []
  | some e => e.outline depth

mutual

def Node.outline (depth : Nat) : Node → List Line
  | .root children => ⟨depth, "root"⟩ :: Node.outlineAll (depth + 1) children
  | .enumeration name members => ⟨depth, "enum " ++ name⟩ :: Node.outlineAll (depth + 1) members
  | .classDecl name generics children =>
    ⟨depth, "class " ++ name ++ genericsText (generics.getD [])⟩ ::
      Node.outlineAll (depth + 1) children
  | .function decl => FunctionDecl.outline depth decl
  | .binding decl => BindingDecl.outline depth decl
  | .ret value => ⟨depth, "return"⟩ :: value.outline (depth + 1)

def FunctionDecl.outline (depth : Nat) : FunctionDecl → List Line
  | ⟨_, name, returnType, parameters, internal, children⟩ =>
    ⟨depth, signatureText name parameters returnType internal⟩ ::
      Node.outlineAll (depth + 1) children

def BindingDecl.outline (depth : Nat) : BindingDecl → List Line
  | ⟨modifiers, name, ty, init, getter⟩ =>
    ⟨depth, modifiers.text ++ " " ++ name ++ typeSuffix ty⟩ ::
      outlineInit (depth + 1) init ++ FunctionDecl.outlineGetter (depth + 1) getter

def FunctionDecl.outlineGetter (depth : Nat) : Option FunctionDecl → List Line
  | none => []
  | some decl => FunctionDecl.outline depth decl

def Node.outlineAll (depth : Nat) : List Node → List Line
  | [] => []
  | x :: xs => Node.outline depth x ++ Node.outlineAll depth xs

end

-- The printed tree of a declaration.  A whole program shows only what it declares.
def Node.tree : Node → String
  | .root children => renderLines (Node.outlineAll 0 children)
  | node => renderLines (node.outline 0)

end Frontend.Surface
