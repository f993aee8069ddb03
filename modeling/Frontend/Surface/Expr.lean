import Frontend.Value

-- Expressions as they are written.  Types are expressions too: a name, with type arguments if it has any.  A
-- range, a list and an index access have no form of their own; they are calls of well-known names.

namespace Frontend.Surface

inductive UnaryOperator where
  | not
  | negate
deriving DecidableEq

def UnaryOperator.name : UnaryOperator → String
  | not => "Not"
  | negate => "Negate"

inductive BinaryOperator where
  | add
  | sub
  | mul
  | div
  | equal
  | notEqual
  | less
  | lessEqual
  | greater
  | greaterEqual
  -- Access to a member, whose name is the right operand.
  | member
deriving DecidableEq

namespace BinaryOperator

def name : BinaryOperator → String
  | add => "Add"
  | sub => "Sub"
  | mul => "Mul"
  | div => "Div"
  | equal => "Eq"
  | notEqual => "NotEq"
  | less => "Less"
  | lessEqual => "LessEq"
  | greater => "Greater"
  | greaterEqual => "GreaterEq"
  | member => "Member"

def symbol : BinaryOperator → String
  | add => "+"
  | sub => "-"
  | mul => "*"
  | div => "/"
  | equal => "=="
  | notEqual => "!="
  | less => "<"
  | lessEqual => "<="
  | greater => ">"
  | greaterEqual => ">="
  | member => "."

end BinaryOperator

inductive Expr where
  | literal (value : Value)
  -- A name; no type arguments differ from an empty list of them.
  | ident (name : String) (generics : Option (List Expr))
  | unary (op : UnaryOperator) (operand : Expr)
  | binary (op : BinaryOperator) (lhs rhs : Expr)
  | grouping (inner : Expr)
  | call (callee : Expr) (args : List Expr)
  -- A string with expressions in it: literal texts, none empty, and the expressions between them.
  | interpolation (parts : List Expr)

namespace Expr

instance : Inhabited Expr := ⟨.ident "" none⟩

def plain (name : String) : Expr := ident name none

def memberOf (object : Expr) (name : String) : Expr := binary .member object (plain name)

def rangeOf (first last : Expr) : Expr := call (plain "Range") [first, last]

def listOf (items : List Expr) : Expr := call (plain "List") items

def elementOf (object : Expr) (args : List Expr) : Expr := call (object.memberOf "Get") args

def describe : Expr → String
  | literal _ => "literal"
  | ident _ _ => "identifier"
  | unary _ _ => "unary expression"
  | binary _ _ _ => "binary expression"
  | grouping _ => "grouping"
  | call _ _ => "function call"
  | interpolation _ => "string interpolation"

end Expr

-- Equality of expressions can be decided, form by form.

mutual

def Expr.same : Expr → Expr → Bool
  | .literal v, .literal w => decide (v = w)
  | .ident n gs, .ident m hs => decide (n = m) && Expr.sameGenerics gs hs
  | .unary o a, .unary p b => decide (o = p) && Expr.same a b
  | .binary o a b, .binary p c d => decide (o = p) && (Expr.same a c && Expr.same b d)
  | .grouping a, .grouping b => Expr.same a b
  | .call f xs, .call g ys => Expr.same f g && Expr.sameAll xs ys
  | .interpolation xs, .interpolation ys => Expr.sameAll xs ys
  | _, _ => false

def Expr.sameAll : List Expr → List Expr → Bool
  | [], [] => true
  | x :: xs, y :: ys => Expr.same x y && Expr.sameAll xs ys
  | _, _ => false

def Expr.sameGenerics : Option (List Expr) → Option (List Expr) → Bool
  | none, none => true
  | some xs, some ys => Expr.sameAll xs ys
  | _, _ => false

end

mutual

theorem Expr.same_iff : ∀ a b : Expr, Expr.same a b = true ↔ a = b
  | .literal v, b => by cases b <;> simp [Expr.same]
  | .ident n gs, b => by cases b <;> simp [Expr.same, Expr.sameGenerics_iff gs]
  | .unary o x, b => by cases b <;> simp [Expr.same, Expr.same_iff x]
  | .binary o x y, b => by cases b <;> simp [Expr.same, Expr.same_iff x, Expr.same_iff y]
  | .grouping x, b => by cases b <;> simp [Expr.same, Expr.same_iff x]
  | .call f xs, b => by cases b <;> simp [Expr.same, Expr.same_iff f, Expr.sameAll_iff xs]
  | .interpolation xs, b => by cases b <;> simp [Expr.same, Expr.sameAll_iff xs]

theorem Expr.sameAll_iff : ∀ xs ys : List Expr, Expr.sameAll xs ys = true ↔ xs = ys
  | [], ys => by cases ys <;> simp [Expr.sameAll]
  | x :: xs, ys => by cases ys <;> simp [Expr.sameAll, Expr.same_iff x, Expr.sameAll_iff xs]

theorem Expr.sameGenerics_iff :
    ∀ gs hs : Option (List Expr), Expr.sameGenerics gs hs = true ↔ gs = hs
  | none, hs => by cases hs <;> simp [Expr.sameGenerics]
  | some xs, hs => by cases hs <;> simp [Expr.sameGenerics, Expr.sameAll_iff xs]

end

instance : DecidableEq Expr := fun a b => decidable_of_iff _ (Expr.same_iff a b)

end Frontend.Surface
