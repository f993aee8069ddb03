import Frontend.Double.Shortest
import Frontend.Text.Quoted

-- The values that literals write.

namespace Frontend

inductive Value where
  | integer (value : Int64)
  | double (value : Double)
  | string (value : String)
  | boolean (value : Bool)
deriving DecidableEq

namespace Value

def text : Value → String
  | integer n => toString n.toInt
  | double d => d.text
  | string s => Text.quoted s
  | boolean true => "true"
  | boolean false => "false"

def kindWord : Value → String
  | integer _ => "int"
  | double _ => "double"
  | string _ => "string"
  | boolean _ => "bool"

def literalText (v : Value) : String := v.kindWord ++ " " ++ v.text

-- Equality of values, in which doubles are compared as numbers.
def equals : Value → Value → Bool
  | integer a, integer b => a == b
  | double a, double b => a.equals b
  | string a, string b => a == b
  | boolean a, boolean b => a == b
  | _, _ => false

def integerOfDigits? (digits : Nat) : Option Int64 :=
  if digits ≤ 9223372036854775807 then some (Int64.ofNat digits) else none

end Value

def successor? (n : Int64) : Option Int64 :=
  if n = Int64.maxValue then none else some (n + 1)

end Frontend
