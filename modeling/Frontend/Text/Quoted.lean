import Frontend.Text.GraphemeExtend
import Frontend.Text.Printable

-- Quoted text, as messages and printed trees show it.  A quote, a backslash and the common controls have a
-- short escape; a character without a form of its own stands as its code point in lower-case hexadecimal
-- digits; every other character stands for itself.

namespace Frontend.Text

def hexDigits (n : Nat) : List Char := Nat.toDigits 16 n

def escapeCodePoint (c : Char) : List Char :=
  ['\\', 'u', '\x7b'] ++ hexDigits c.toNat ++ ['\x7d']

def escapeChar (quote c : Char) : List Char :=
  if c = '\x00' then ['\\', '0']
  else if c = '\t' then ['\\', 't']
  else if c = '\r' then ['\\', 'r']
  else if c = '\n' then ['\\', 'n']
  else if c = '\\' then ['\\', '\\']
  else if c = quote then ['\\', quote]
  else if isGraphemeExtend c then escapeCodePoint c
  else if isPrintable c then [c]
  else escapeCodePoint c

def quoted (text : String) : String :=
  String.ofList ('"' :: text.toList.flatMap (escapeChar '"') ++ ['"'])

def quotedChar (c : Char) : String :=
  String.ofList ('\x27' :: escapeChar '\x27' c ++ ['\x27'])

end Frontend.Text
