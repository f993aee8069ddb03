import Frontend.Surface.Expr

-- Declarations as they are written: the tree that a source is read into.

namespace Frontend.Surface

structure Modifiers where
  -- A `val` is read-only, a `var` is not.
  val : Bool
  static : Bool
deriving DecidableEq

namespace Modifiers

def var : Modifiers := ⟨false, false⟩

def readOnly : Modifiers := ⟨true, false⟩

def enumMember : Modifiers := ⟨true, true⟩

def text (m : Modifiers) : String :=
  (if m.val then "val" else "var") ++ (if m.static then " static" else "")

end Modifiers

structure Parameter where
  modifiers : Modifiers
  name : String
  ty : Expr
deriving DecidableEq

mutual

inductive Node where
  | root (children : List Node)
  | enumeration (name : String) (members : List Node)
  | classDecl (name : String) (generics : Option (List String)) (children : List Node)
  | function (decl : FunctionDecl)
  | binding (decl : BindingDecl)
  | ret (value : Expr)

structure FunctionDecl where
  static : Bool
  name : String
  returnType : Option Expr
  parameters : List Parameter
  -- Whether the body was made up for a shorter form instead of being written out.
  internal : Bool
  children : List Node

structure BindingDecl where
  modifiers : Modifiers
  name : String
  ty : Option Expr
  init : Option Expr
  getter : Option FunctionDecl

end

instance : Inhabited Node := ⟨.root []⟩

instance : Inhabited FunctionDecl := ⟨⟨false, "", none, [], false, []⟩⟩

-- The name of the function that a parenthesised parameter list of a class stands for.
def constructorName : String := ".ctor"

def getterName (name : String) : String := "get_" ++ name

namespace Node

def children : Node → List Node
  | root children => children
  | enumeration _ members => members
  | classDecl _ _ children => children
  | function decl => decl.children
  | binding _ => []
  | ret _ => []

def describe : Node → String
  | root _ => "root"
  | enumeration _ _ => "enum"
  | classDecl _ _ _ => "class"
  | function _ => "function"
  | binding _ => "variable"
  | ret _ => "return statement"

end Node

-- Equality of declarations can be decided, form by form.

mutual

def Node.same : Node → Node → Bool
  | .root xs, .root ys => Node.sameAll xs ys
  | .enumeration n xs, .enumeration m ys => decide (n = m) && Node.sameAll xs ys
  | .classDecl n gs xs, .classDecl m hs ys =>
    decide (n = m) && (decide (gs = hs) && Node.sameAll xs ys)
  | .function f, .function g => FunctionDecl.same f g
  | .binding v, .binding w => BindingDecl.same v w
  | .ret a, .ret b => decide (a = b)
  | _, _ => false

def FunctionDecl.same : FunctionDecl → FunctionDecl → Bool
  | ⟨s, n, r, ps, i, xs⟩, ⟨t, m, q, qs, j, ys⟩ =>
    decide (s = t) && (decide (n = m) && (decide (r = q) && (decide (ps = qs) &&
      (decide (i = j) && Node.sameAll xs ys))))

def BindingDecl.same : BindingDecl → BindingDecl → Bool
  | ⟨m, n, t, e, g⟩, ⟨k, l, s, d, h⟩ =>
    decide (m = k) && (decide (n = l) && (decide (t = s) && (decide (e = d) &&
      FunctionDecl.sameGetter g h)))

def FunctionDecl.sameGetter : Option FunctionDecl → Option FunctionDecl → Bool
  | none, none => true
  | some f, some g => FunctionDecl.same f g
  | _, _ => false

def Node.sameAll : List Node → List Node → Bool
  | [], [] => true
  | x :: xs, y :: ys => Node.same x y && Node.sameAll xs ys
  | _, _ => false

end

mutual

theorem Node.same_iff : ∀ a b : Node, Node.same a b = true ↔ a = b
  | .root xs, b => by cases b <;> simp [Node.same, Node.sameAll_iff xs]
  | .enumeration n xs, b => by cases b <;> simp [Node.same, Node.sameAll_iff xs]
  | .classDecl n gs xs, b => by cases b <;> simp [Node.same, Node.sameAll_iff xs]
  | .function f, b => by cases b <;> simp [Node.same, FunctionDecl.same_iff f]
  | .binding v, b => by cases b <;> simp [Node.same, BindingDecl.same_iff v]
  | .ret e, b => by cases b <;> simp [Node.same]

theorem FunctionDecl.same_iff : ∀ f g : FunctionDecl, FunctionDecl.same f g = true ↔ f = g
  | ⟨s, n, r, ps, i, xs⟩, ⟨t, m, q, qs, j, ys⟩ => by
    simp [FunctionDecl.same, Node.sameAll_iff xs]

theorem BindingDecl.same_iff : ∀ v w : BindingDecl, BindingDecl.same v w = true ↔ v = w
  | ⟨m, n, t, e, g⟩, ⟨k, l, s, d, h⟩ => by
    simp [BindingDecl.same, FunctionDecl.sameGetter_iff g]

theorem FunctionDecl.sameGetter_iff :
    ∀ f g : Option FunctionDecl, FunctionDecl.sameGetter f g = true ↔ f = g
  | none, g => by cases g <;> simp [FunctionDecl.sameGetter]
  | some f, g => by cases g <;> simp [FunctionDecl.sameGetter, FunctionDecl.same_iff f]

theorem Node.sameAll_iff : ∀ xs ys : List Node, Node.sameAll xs ys = true ↔ xs = ys
  | [], ys => by cases ys <;> simp [Node.sameAll]
  | x :: xs, ys => by cases ys <;> simp [Node.sameAll, Node.same_iff x, Node.sameAll_iff xs]

end

instance : DecidableEq Node := fun a b => decidable_of_iff _ (Node.same_iff a b)

end Frontend.Surface
