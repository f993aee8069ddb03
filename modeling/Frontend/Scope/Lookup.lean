import Frontend.Scope.Tree

-- Finding what a name means.  A name is looked for in a scope and then in the scopes around it, from the
-- inside to the outside; where a scope has several entries that fit, the last one counts.

namespace Frontend.Scope.Tree

-- A scope, and the scopes around it up to the root.
def scopes (t : Tree) (id : Ref) : List Ref :=
  match t.parent id with
  | none => [id]
  -- A scope is always of smaller rank than what stands in it, so the walk goes up to the root.
  | some outer => if outer.rank < id.rank then id :: t.scopes outer else [id]
termination_by id.rank

def findChild (t : Tree) (fits : Entry → Bool) (scope : Ref) : Option Ref :=
  (t.children scope).reverse.find? fun child => (t.get? child).any fits

def find (t : Tree) (fits : Entry → Bool) (scope : Ref) : Option Ref :=
  (t.scopes scope).findSome? (t.findChild fits)

def findType (t : Tree) (scope : Ref) (name : String) : Option Ref :=
  t.find (Entry.isTypeNamed name) scope

def findFunction (t : Tree) (scope : Ref) (name : String) (types : List Ref) : Option Ref :=
  t.find (Entry.isFunctionNamed name types) scope

end Frontend.Scope.Tree
