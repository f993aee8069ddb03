import Frontend.Surface.Node

-- The entries of a scope tree: what was declared, with every type resolved to the entry that declares it.
-- A few entries are built in and belong to every tree; all others are numbered by their tree.

namespace Frontend.Scope

open Surface (BinaryOperator Modifiers)

inductive Primitive where
  | integer
  | double
  | string
  | boolean
deriving DecidableEq

namespace Primitive

def all : List Primitive := [integer, double, string, boolean]

def name : Primitive → String
  | integer => "Integer"
  | double => "Double"
  | string => "String"
  | boolean => "Boolean"

def ofValue : Value → Primitive
  | .integer _ => integer
  | .double _ => double
  | .string _ => string
  | .boolean _ => boolean

end Primitive

-- The entries that belong to every tree.
inductive Builtin where
  | type (primitive : Primitive)
  -- The addition of integers, which stands in the type of integers.
  | integerAdd
deriving DecidableEq

inductive Ref where
  | builtin (which : Builtin)
  | declared (number : Nat)
deriving DecidableEq

namespace Ref

def root : Ref := declared 0

def primitive (p : Primitive) : Ref := builtin (.type p)

def integer : Ref := primitive .integer

-- Enclosing scopes are of smaller rank.
def rank : Ref → Nat
  | declared n => n
  | builtin (.type _) => 1
  | builtin .integerAdd => 2

end Ref

inductive TypedExpr where
  | literal (value : Value) (ty : Ref)
  | binary (op : BinaryOperator) (lhs rhs : TypedExpr) (ty : Ref)
deriving DecidableEq

instance : Inhabited TypedExpr := ⟨.literal (.boolean false) (.primitive .boolean)⟩

def TypedExpr.ty : TypedExpr → Ref
  | literal _ ty => ty
  | binary _ _ _ ty => ty

structure Parameter where
  modifiers : Modifiers
  name : String
  ty : Ref
deriving DecidableEq

inductive Kind where
  | root
  | enumeration
  | classDecl (generics : List String)
  | binding (modifiers : Modifiers) (ty : Option Ref) (init : Option TypedExpr)
  -- A function; `returns` are the values that its body gives back.
  | function (static : Bool) (generics : List String) (returnType : Option Ref)
      (parameters : List Parameter) (returns : List TypedExpr)
deriving DecidableEq

def Kind.isType : Kind → Bool
  | enumeration => true
  | classDecl _ => true
  | _ => false

structure Draft where
  name : String
  kind : Kind
  -- The entry was made up rather than declared.  It can be looked up, but comparisons skip it.
  internal : Bool
deriving DecidableEq

structure Entry extends Draft where
  parent : Option Ref
  children : List Ref
deriving DecidableEq

namespace Entry

def isTypeNamed (name : String) (e : Entry) : Bool := e.kind.isType && e.name == name

def isFunctionNamed (name : String) (types : List Ref) (e : Entry) : Bool :=
  match e.kind with
  | .function _ _ _ parameters _ => e.name == name && parameters.map Parameter.ty == types
  | _ => false

end Entry

def Builtin.entry : Builtin → Entry
  | .type p =>
    { name := p.name
      kind := .classDecl []
      internal := true
      parent := some Ref.root
      children := if p = .integer then [.builtin .integerAdd] else [] }
  | .integerAdd =>
    { name := "+"
      kind := .function true [] (some Ref.integer)
        [⟨.var, "left", Ref.integer⟩, ⟨.var, "right", Ref.integer⟩] []
      internal := true
      parent := some Ref.integer
      children := [] }

end Frontend.Scope
