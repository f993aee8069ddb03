import Frontend.Scope.Entry

-- Scope trees.  The entries of a tree are numbered in the order in which they were added; an entry knows
-- its parent, which is its scope, and its children in order.

namespace Frontend.Scope

-- The entries of a tree by number; the first one is the root.
structure Tree where
  entries : Array Entry
  rooted : 0 < entries.size
deriving DecidableEq

inductive EditError where
  | builtin
  | unknown
deriving DecidableEq

def EditError.message : EditError → String
  | builtin => "built-in entries are shared and must not be mutated"
  | unknown => "no such entry"

namespace Tree

def empty : Tree :=
  ⟨#[{ name := "", kind := .root, internal := false, parent := none,
       children := Primitive.all.map Ref.primitive }], Nat.zero_lt_one⟩

instance : Inhabited Tree := ⟨empty⟩

def size (t : Tree) : Nat := t.entries.size

def get? (t : Tree) : Ref → Option Entry
  | .builtin b => some b.entry
  | .declared n => t.entries[n]?

def contains (t : Tree) (id : Ref) : Bool := (t.get? id).isSome

-- An id is meant for the tree that gave it out.  Where it is none of this tree, the program stops, and the name is
-- empty here.
def name (t : Tree) (id : Ref) : String := ((t.get? id).map fun e => e.name).getD ""

-- The scope that an entry stands in; the root stands in none.
def parent (t : Tree) (id : Ref) : Option Ref := (t.get? id).bind Entry.parent

def children (t : Tree) (id : Ref) : List Ref := ((t.get? id).map Entry.children).getD []

def visibleChildren (t : Tree) (id : Ref) : List Ref :=
  (t.children id).filter fun child => (t.get? child).any fun e => !e.internal

-- Adds an entry as the last child of the entry `parent`.  Its number is the former size.
def push (t : Tree) (parent : Nat) (draft : Draft) : Tree :=
  ⟨(t.entries.modify parent fun e => { e with children := e.children ++ [.declared t.size] }).push
    { draft with parent := some (.declared parent), children := [] }, by simp⟩

def modify (t : Tree) (n : Nat) (f : Draft → Draft) : Tree :=
  ⟨t.entries.modify n fun e => { e with toDraft := f e.toDraft }, by simpa using t.rooted⟩

def editable (t : Tree) : Ref → Except EditError Nat
  | .builtin _ => .error .builtin
  | .declared n => if n < t.size then .ok n else .error .unknown

def add (t : Tree) (parent : Ref) (draft : Draft) : Except EditError (Ref × Tree) := do
  let n ← t.editable parent
  return (.declared t.size, t.push n draft)

def edit (t : Tree) (id : Ref) (f : Draft → Draft) : Except EditError Tree := do
  let n ← t.editable id
  return t.modify n f

end Tree

end Frontend.Scope
