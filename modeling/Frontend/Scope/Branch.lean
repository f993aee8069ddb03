import Frontend.Scope.Tree

-- An entry together with all the entries below it, read off the numbered entries of a tree.  Built-in
-- entries are left out.

namespace Frontend.Scope

-- An entry with its number, and the branches of its children.
inductive Branch where
  | node (number : Nat) (entry : Entry) (below : List Branch)

mutual

def Branch.numbers : Branch → List Nat
  | .node n _ branches => n :: Branch.numbersAll branches

def Branch.numbersAll : List Branch → List Nat
  | [] => []
  | b :: bs => b.numbers ++ Branch.numbersAll bs

end

def Branch.parts : Branch → List Branch
  | .node _ _ branches => branches

namespace Tree

-- The branch whose top is the entry `n`.  Children have greater numbers than their parent.
def branch (t : Tree) (n : Nat) (inside : n < t.entries.size) : Branch :=
  .node n t.entries[n] (t.entries[n].children.filterMap fun child =>
    match child with
    | .builtin _ => none
    -- Every child was added after its parent, so nothing is cut off here.
    | .declared c =>
      if _later : n < c ∧ c < t.entries.size then some (t.branch c _later.2) else none)
termination_by t.entries.size - n
decreasing_by omega

def rootBranch (t : Tree) : Branch := t.branch 0 t.rooted

-- The numbers of all entries that the root leads to, parents before their children.
def preorder (t : Tree) : List Nat := t.rootBranch.numbers

end Tree

end Frontend.Scope
