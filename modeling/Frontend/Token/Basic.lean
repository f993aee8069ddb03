import Frontend.Span
import Frontend.Text.Word
import Frontend.Token.Kind
import Frontend.Value

-- Tokens, and the errors that can arise where the characters of a source do not form one.

namespace Frontend

namespace Text

-- The characters in front that `room` bytes have place for.
def fitting : Nat → List Char → List Char
  | _, [] => []
  | room, c :: cs => if c.utf8Size ≤ room then c :: fitting (room - c.utf8Size) cs else []

theorem fitting_eq {room : Nat} {cs : List Char} (short : byteLength cs ≤ room) : fitting room cs = cs := by
  induction cs generalizing room with
  | nil => rfl
  | cons c cs ih =>
    rw [byteLength_cons] at short
    rw [fitting, if_pos (by omega), ih (by omega)]

theorem fitting_front (room : Nat) (cs : List Char) : fitting room cs <+: cs := by
  fun_induction fitting room cs with
  | case1 => exact List.nil_prefix
  | case2 room c cs _ ih => exact List.cons_prefix_cons.2 ⟨rfl, ih⟩
  | case3 => exact List.nil_prefix

-- The characters that a span has place for.
--
-- The text of a token is cut out of its source at its span, so that it is no longer than a span can be.
-- Where the cut would go through a character, the program stops; here it goes in front of it.
def clamped (text : List Char) : List Char := fitting Span.maxLen text

theorem clamped_eq {text : List Char} (short : byteLength text ≤ Span.maxLen) : clamped text = text :=
  fitting_eq short

theorem clamped_cons (c : Char) (cs : List Char) :
    clamped (c :: cs) = c :: fitting (Span.maxLen - c.utf8Size) cs :=
  if_pos (Nat.le_trans c.utf8Size_le_four (by decide))

-- There is place for more than one character.
theorem clamped_eq_singleton {c : Char} {text : List Char} (single : clamped text = [c]) : text = [c] := by
  cases text with
  | nil => cases single
  | cons d ds =>
    rw [clamped_cons] at single
    obtain ⟨rfl, none_⟩ := List.cons.inj single
    cases ds with
    | nil => rfl
    | cons e es =>
      have place : e.utf8Size ≤ Span.maxLen - d.utf8Size := by
        have := d.utf8Size_le_four
        have := e.utf8Size_le_four
        rw [Span.maxLen]
        omega
      rw [fitting, if_pos place] at none_
      cases none_

theorem mem_of_mem_clamped {c : Char} {text : List Char} (within : c ∈ clamped text) : c ∈ text :=
  (fitting_front _ _).subset within

end Text

open Text (clamped)

structure Token where
  kind : TokenKind
  text : String
  value : Option Value
  span : Span
deriving DecidableEq

namespace Token

def ofChars (kind : TokenKind) (value : Option Value) (lo : Nat) (text : List Char) : Token :=
  ⟨kind, String.ofList (clamped text), value, Span.ofBounds lo (lo + Text.byteLength text)⟩

def details (t : Token) : String :=
  "Token(" ++ t.kind.name ++ ", " ++ Text.quoted t.text ++ ", " ++ t.span.text ++ ")"

-- The line of a token in a listing: a literal shows its value, any other token its text.
def listingLine (t : Token) : String :=
  let content :=
    match t.value with
    | some v => v.text
    | none => Text.quoted t.text
  t.span.text ++ ": " ++ t.kind.name ++ " " ++ content ++ "\n"

end Token

inductive LexicalError where
  | unexpectedChar (c : Char)
  | malformedNumber (digits : String)
  -- A segment of a string was left where none was open.
  | unbalancedInterpolation
deriving DecidableEq

def LexicalError.message : LexicalError → String
  | unexpectedChar c => "unexpected character " ++ Text.quotedChar c
  | malformedNumber digits => "malformed number literal \x60" ++ digits ++ "\x60"
  | unbalancedInterpolation => "unbalanced string interpolation"

end Frontend
