import Frontend.Text.Quoted
import Mathlib.Data.Nat.Digits.Defs

-- Quoted text tells the text: the forms of the characters are a prefix code, and none of them begins with
-- the quote that ends the whole.

namespace Frontend.Text

-- Two runs of one class, each with something else behind it or nothing.
theorem run_unique {α : Type} {p : α → Bool} {xs ys us vs : List α} (left : ∀ c ∈ xs, p c = true)
    (right : ∀ c ∈ ys, p c = true) (endsLeft : ∀ c ∈ us.head?, p c = false)
    (endsRight : ∀ c ∈ vs.head?, p c = false) (same : xs ++ us = ys ++ vs) : xs = ys ∧ us = vs := by
  have stops {ws : List α} (ends : ∀ c ∈ ws.head?, p c = false) : ws.takeWhile p = [] := by
    cases ws with
    | nil => rfl
    | cons c ws => rw [List.takeWhile_cons_of_neg (by simp [ends c rfl])]
  have runs := congrArg (List.takeWhile p) same
  rw [List.takeWhile_append_of_pos left, List.takeWhile_append_of_pos right, stops endsLeft,
    stops endsRight, List.append_nil, List.append_nil] at runs
  subst runs
  exact ⟨rfl, List.append_cancel_left same⟩

theorem digitChar_injective {m n : Nat} (small : m < 16) (small' : n < 16)
    (same : m.digitChar = n.digitChar) : m = n := by
  have table : ∀ i j : Fin 16, (i : Nat).digitChar = (j : Nat).digitChar → i = j := by decide
  exact congrArg Fin.val (table ⟨m, small⟩ ⟨n, small'⟩ same)

def hexChars : List Char :=
  ['0', '1', '2', '3', '4', '5', '6', '7', '8', '9', 'a', 'b', 'c', 'd', 'e', 'f']

theorem hexDigits_small {n : Nat} (small : n < 16) : hexDigits n = [n.digitChar] :=
  Nat.toDigits_of_lt_base small

theorem hexDigits_large {n : Nat} (large : 16 ≤ n) :
    hexDigits n = hexDigits (n / 16) ++ [(n % 16).digitChar] :=
  Nat.toDigits_of_base_le (by decide) large

theorem hexDigits_injective {m n : Nat} (same : hexDigits m = hexDigits n) : m = n := by
  -- A number of at least two digits differs in length from a number of one.
  have longer {m n : Nat} (small : m < 16) (large : 16 ≤ n) : hexDigits m ≠ hexDigits n := by
    rw [hexDigits_small small, hexDigits_large large]
    intro same
    have lengths := congrArg List.length same
    have : 0 < (hexDigits (n / 16)).length := Nat.length_toDigits_pos
    simp only [List.length_append, List.length_singleton] at lengths
    omega
  induction m using Nat.strongRecOn generalizing n with
  | _ m ih =>
    rcases Nat.lt_or_ge m 16 with small | large <;> rcases Nat.lt_or_ge n 16 with small' | large'
    · rw [hexDigits_small small, hexDigits_small small'] at same
      exact digitChar_injective small small' (List.singleton_inj.1 same)
    · exact absurd same (longer small large')
    · exact absurd same.symm (longer small' large)
    · rw [hexDigits_large large, hexDigits_large large'] at same
      obtain ⟨front, last⟩ := List.append_inj' same rfl
      have quotients := ih (m / 16) (Nat.div_lt_self (by omega) (by omega)) front
      have remainders := digitChar_injective (Nat.mod_lt m (by decide)) (Nat.mod_lt n (by decide))
        (List.singleton_inj.1 last)
      omega

theorem digitChar_mem {n : Nat} (small : n < 16) : n.digitChar ∈ hexChars := by
  have table : ∀ i : Fin 16, (i : Nat).digitChar ∈ hexChars := by decide
  exact table ⟨n, small⟩

theorem hexDigits_mem {n : Nat} {c : Char} (within : c ∈ hexDigits n) :
    c ∈ hexChars := by
  induction n using Nat.strongRecOn with
  | _ n ih =>
    rcases Nat.lt_or_ge n 16 with small | large
    · rw [hexDigits_small small, List.mem_singleton] at within
      exact within ▸ digitChar_mem small
    · rw [hexDigits_large large, List.mem_append, List.mem_singleton] at within
      rcases within with front | rfl
      · exact ih (n / 16) (Nat.div_lt_self (by omega) (by omega)) front
      · exact digitChar_mem (Nat.mod_lt n (by decide))

-- The characters that stand behind a backslash, with the characters they stand for.
def shortEscapes : List (Char × Char) :=
  [('\x00', '0'), ('\t', 't'), ('\r', 'r'), ('\n', 'n'), ('\\', '\\'), ('"', '"')]

inductive Escapes (c : Char) : List Char → Prop where
  | itself : c ≠ '\\' → c ≠ '"' → c ≠ '\n' → Escapes c [c]
  | short {letter : Char} : (c, letter) ∈ shortEscapes → Escapes c ['\\', letter]
  | codePoint : Escapes c (escapeCodePoint c)

theorem escapeChar_escapes (c : Char) : Escapes c (escapeChar '"' c) := by
  unfold escapeChar
  split
  · next same => subst same; exact .short (by decide)
  split
  · next same => subst same; exact .short (by decide)
  split
  · next same => subst same; exact .short (by decide)
  split
  · next same => subst same; exact .short (by decide)
  split
  · next same => subst same; exact .short (by decide)
  split
  · next same => subst same; exact .short (by decide)
  split
  · exact .codePoint
  split
  · exact .itself (by assumption) (by assumption) (by assumption)
  · exact .codePoint

namespace Escapes

variable {a b : Char} {xs ys us vs : List Char}

theorem short_unique {letter : Char} (left : (a, letter) ∈ shortEscapes)
    (right : (b, letter) ∈ shortEscapes) : a = b := by
  simp only [shortEscapes, List.mem_cons, Prod.mk.injEq, List.not_mem_nil, or_false] at left right
  rcases left with ⟨rfl, rfl⟩ | ⟨rfl, rfl⟩ | ⟨rfl, rfl⟩ | ⟨rfl, rfl⟩ | ⟨rfl, rfl⟩ | ⟨rfl, rfl⟩ <;>
    simpa [eq_comm] using right

theorem short_not_codePoint {c : Char} : (c, 'u') ∉ shortEscapes := by
  simp [shortEscapes]

theorem codePoint_unique (same : escapeCodePoint a ++ us = escapeCodePoint b ++ vs) :
    a = b ∧ us = vs := by
  have digits {c : Char} : ∀ d ∈ hexDigits c.toNat, (d != '\x7d') = true := by
    have table : hexChars.all (· != '\x7d') = true := by decide
    exact fun d within => List.all_eq_true.1 table d (hexDigits_mem within)
  simp only [escapeCodePoint, List.append_assoc, List.cons_append, List.nil_append, List.cons.injEq,
    true_and] at same
  obtain ⟨codes, rest⟩ := run_unique digits digits (by simp) (by simp) same
  exact ⟨Char.toNat_inj.1 (hexDigits_injective codes), (List.cons.inj rest).2⟩

-- Whatever stands behind them, the forms of two characters tell the characters apart.
theorem unique (left : Escapes a xs) (right : Escapes b ys) (same : xs ++ us = ys ++ vs) :
    a = b ∧ us = vs := by
  cases left with
  | itself notBackslash _ _ =>
    cases right with
    | itself _ _ _ => exact List.cons.inj same
    | short _ | codePoint => exact absurd (List.cons.inj same).1 notBackslash
  | short listed =>
    cases right with
    | itself notBackslash _ _ => exact absurd (List.cons.inj same).1.symm notBackslash
    | short listed' =>
      obtain ⟨rfl, rest⟩ := List.cons.inj (List.cons.inj same).2
      exact ⟨short_unique listed listed', rest⟩
    | codePoint =>
      obtain ⟨rfl, -⟩ := List.cons.inj (List.cons.inj same).2
      exact absurd listed short_not_codePoint
  | codePoint =>
    cases right with
    | itself notBackslash _ _ => exact absurd (List.cons.inj same).1.symm notBackslash
    | short listed =>
      obtain ⟨rfl, -⟩ := List.cons.inj (List.cons.inj same).2
      exact absurd listed short_not_codePoint
    | codePoint => exact codePoint_unique same

theorem not_quote (escapes : Escapes a xs) : xs ++ us ≠ '"' :: vs := by
  intro same
  cases escapes with
  | itself _ notQuote _ => exact notQuote (List.cons.inj same).1
  | short _ | codePoint => cases (List.cons.inj same).1

theorem no_newline (escapes : Escapes a xs) : '\n' ∉ xs := by
  cases escapes with
  | itself _ _ notNewline => exact fun within => notNewline (List.mem_singleton.1 within).symm
  | short listed =>
    simp only [shortEscapes, List.mem_cons, Prod.mk.injEq, List.not_mem_nil, or_false] at listed
    rcases listed with ⟨rfl, rfl⟩ | ⟨rfl, rfl⟩ | ⟨rfl, rfl⟩ | ⟨rfl, rfl⟩ | ⟨rfl, rfl⟩ | ⟨rfl, rfl⟩ <;> decide
  | codePoint =>
    intro within
    simp only [escapeCodePoint, List.mem_append, List.mem_cons, List.not_mem_nil, or_false] at within
    rcases within with (opening | digits) | closing
    · revert opening; decide
    · have : '\n' ∉ hexChars := by decide
      exact this (hexDigits_mem digits)
    · revert closing; decide

end Escapes

theorem escapes_unique {cs ds us vs : List Char}
    (same : cs.flatMap (escapeChar '"') ++ '"' :: us = ds.flatMap (escapeChar '"') ++ '"' :: vs) :
    cs = ds ∧ us = vs := by
  induction cs generalizing ds with
  | nil =>
    cases ds with
    | nil => exact ⟨rfl, (List.cons.inj same).2⟩
    | cons d ds =>
      rw [List.flatMap_cons, List.append_assoc] at same
      exact absurd same.symm (escapeChar_escapes d).not_quote
  | cons c cs ih =>
    cases ds with
    | nil =>
      rw [List.flatMap_cons, List.append_assoc] at same
      exact absurd same (escapeChar_escapes c).not_quote
    | cons d ds =>
      simp only [List.flatMap_cons, List.append_assoc] at same
      obtain ⟨rfl, rest⟩ := (escapeChar_escapes c).unique (escapeChar_escapes d) same
      obtain ⟨rfl, behind⟩ := ih rest
      exact ⟨rfl, behind⟩

theorem quoted_toList (text : String) :
    (quoted text).toList = '"' :: text.toList.flatMap (escapeChar '"') ++ ['"'] := by
  rw [quoted, String.toList_ofList]

theorem quoted_injective {s t : String} (same : quoted s = quoted t) : s = t := by
  have chars := congrArg String.toList same
  rw [quoted_toList, quoted_toList] at chars
  exact String.toList_inj.1 (escapes_unique (List.cons.inj chars).2).1

theorem quoted_no_newline (text : String) : '\n' ∉ (quoted text).toList := by
  rw [quoted_toList]
  intro within
  rcases List.mem_append.1 within with front | closing
  · rcases List.mem_cons.1 front with opening | body
    · cases opening
    · obtain ⟨c, -, within⟩ := List.mem_flatMap.1 body
      exact (escapeChar_escapes c).no_newline within
  · cases List.mem_singleton.1 closing

end Frontend.Text
