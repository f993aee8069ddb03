import Frontend.Text.Alphabetic
import Frontend.Text.Numeric

-- The characters that continue a name, and the size of a run of characters in bytes.

namespace Frontend.Text

def isAlphanumeric (c : Char) : Bool := isAlphabetic c || isNumeric c

def byteLength (cs : List Char) : Nat := cs.foldr (fun c count => c.utf8Size + count) 0

@[simp] theorem byteLength_nil : byteLength [] = 0 := rfl

@[simp] theorem byteLength_cons (c : Char) (cs : List Char) :
    byteLength (c :: cs) = c.utf8Size + byteLength cs := rfl

@[simp] theorem byteLength_append (xs ys : List Char) :
    byteLength (xs ++ ys) = byteLength xs + byteLength ys := by
  induction xs with
  | nil => simp
  | cons x xs ih => rw [List.cons_append, byteLength_cons, byteLength_cons, ih, Nat.add_assoc]

end Frontend.Text
