import Frontend.Proofs.LegibleTrees
import Frontend.Surface.Outline

-- What stands on a single line tells what is written there: a type, a parameter, the head of a declaration.
-- Each statement is about a text with anything behind it that could not continue the text.

namespace Frontend

open Text

namespace Text

variable {us vs : List Char}

theorem word_unique {m n : String} (left : Word m) (right : Word n)
    (ends : ∀ c ∈ us.head?, isAlphanumeric c = false) (ends' : ∀ c ∈ vs.head?, isAlphanumeric c = false)
    (same : m.toList ++ us = n.toList ++ vs) : m = n ∧ us = vs := by
  obtain ⟨names, behind⟩ := run_unique left.2 right.2 ends ends' same
  exact ⟨String.toList_inj.1 names, behind⟩

-- The characters that stand around names are not part of them.
theorem between_words : ∀ c ∈ " \n<>,:(".toList, isAlphanumeric c = false := by
  have all : (" \n<>,:(".toList.all fun c => !isAlphanumeric c) = true := by decide +kernel
  exact fun c within => Bool.not_eq_true' _ ▸ List.all_eq_true.1 all c within

def separated (texts : List String) : List Char := (", ".intercalate texts).toList

theorem separated_one (text : String) : separated [text] = text.toList := by
  rw [separated, String.intercalate_singleton]

theorem separated_more (text next : String) (others : List String) :
    separated (text :: next :: others) = text.toList ++ ',' :: ' ' :: separated (next :: others) := by
  rw [separated, separated, String.toList_intercalate, String.toList_intercalate, List.map_cons,
    List.map_cons, List.intercalate_cons_cons, List.append_assoc]
  rfl

-- A list up to its closing character tells its items, if each item tells itself up to a comma or to the
-- closing character.
theorem separated_unique {α : Type} {text : α → String} {Ends : List Char → Prop} (closing : Char)
    (apart : closing ≠ ',') (comma : ∀ cs, Ends (',' :: cs)) (close : ∀ cs, Ends (closing :: cs))
    {xs ys : List α} (some : xs ≠ []) (some' : ys ≠ [])
    (one : ∀ x ∈ xs, ∀ y ∈ ys, ∀ us vs, Ends us → Ends vs →
      (text x).toList ++ us = (text y).toList ++ vs → x = y ∧ us = vs)
    (same : separated (xs.map text) ++ closing :: us = separated (ys.map text) ++ closing :: vs) :
    xs = ys ∧ us = vs := by
  induction xs generalizing ys with
  | nil => exact absurd rfl some
  | cons x xs ih =>
    cases ys with
    | nil => exact absurd rfl some'
    | cons y ys =>
      have first := one x List.mem_cons_self y List.mem_cons_self
      cases xs with
      | nil =>
        cases ys with
        | nil =>
          simp only [List.map_cons, List.map_nil, separated_one] at same
          obtain ⟨rfl, behind⟩ := first _ _ (close us) (close vs) same
          exact ⟨rfl, (List.cons.inj behind).2⟩
        | cons y' ys =>
          simp only [List.map_cons, List.map_nil, separated_one, separated_more, List.append_assoc] at same
          obtain ⟨-, behind⟩ := first _ _ (close us) (comma _) same
          exact absurd (List.cons.inj behind).1 apart
      | cons x' xs =>
        cases ys with
        | nil =>
          simp only [List.map_cons, List.map_nil, separated_one, separated_more, List.append_assoc] at same
          obtain ⟨-, behind⟩ := first _ _ (comma _) (close vs) same
          exact absurd (List.cons.inj behind).1.symm apart
        | cons y' ys =>
          simp only [List.map_cons, separated_more, List.append_assoc] at same
          obtain ⟨rfl, behind⟩ := first _ _ (comma _) (comma _) same
          have others : ∀ x ∈ x' :: xs, ∀ y ∈ y' :: ys, ∀ us vs, Ends us → Ends vs →
              (text x).toList ++ us = (text y).toList ++ vs → x = y ∧ us = vs :=
            fun x inXs y inYs => one x (List.mem_cons_of_mem _ inXs) y (List.mem_cons_of_mem _ inYs)
          obtain ⟨rest, behind⟩ := ih (List.cons_ne_nil _ _) (List.cons_ne_nil _ _) others
            (List.cons.inj (List.cons.inj behind).2).2
          exact ⟨by rw [rest], behind⟩

end Text

namespace Surface

variable {us vs : List Char}

-- What stands behind a type is no part of a name, and no arguments.
def TypeEnds (us : List Char) : Prop := ∀ c ∈ us.head?, isAlphanumeric c = false ∧ c ≠ '<'

theorem TypeEnds.nil : TypeEnds [] := nofun

theorem typeEnds_cons {c : Char} (listed : c ∈ " ,>)".toList) (cs : List Char) : TypeEnds (c :: cs) := by
  intro d first
  cases first
  have all : (" ,>)".toList.all fun c => !isAlphanumeric c && c != '<') = true := by decide +kernel
  have here := List.all_eq_true.1 all c listed
  rw [Bool.and_eq_true, Bool.not_eq_true', bne_iff_ne] at here
  exact here

theorem TypeEnds.word (ends : TypeEnds us) : ∀ c ∈ us.head?, isAlphanumeric c = false :=
  fun c first => (ends c first).1

theorem typeTexts_eq (types : List Expr) : Expr.typeTexts types = types.map Expr.typeText := by
  induction types with
  | nil => rw [Expr.typeTexts, List.map_nil]
  | cons x xs ih => rw [Expr.typeTexts, ih, List.map_cons]

theorem plain_typeText (name : String) : (Expr.plain name).typeText = name := by
  rw [Expr.plain, Expr.typeText]

theorem applied_typeText (name : String) (args : List Expr) :
    (Expr.ident name (some args)).typeText.toList =
      name.toList ++ '<' :: (separated (args.map Expr.typeText) ++ ['>']) := by
  rw [Expr.typeText, typeTexts_eq]
  simp [separated]

theorem open_bracket_ends (cs : List Char) : ∀ c ∈ ('<' :: cs).head?, isAlphanumeric c = false := by
  intro c first
  cases first
  exact between_words '<' (by decide)

theorem LegibleType.unique {a b : Expr} (left : LegibleType a) (right : LegibleType b)
    (ends : TypeEnds us) (ends' : TypeEnds vs)
    (same : a.typeText.toList ++ us = b.typeText.toList ++ vs) : a = b ∧ us = vs := by
  induction left generalizing b us vs with
  | @plain n name =>
    cases right with
    | plain name' =>
      rw [plain_typeText, plain_typeText] at same
      obtain ⟨rfl, behind⟩ := word_unique name name' ends.word ends'.word same
      exact ⟨rfl, behind⟩
    | applied name' _ _ =>
      rw [plain_typeText, applied_typeText, List.append_assoc] at same
      obtain ⟨-, rfl⟩ := word_unique name name' ends.word (open_bracket_ends _) same
      exact absurd rfl (ends '<' rfl).2
  | @applied n args name some _ ih =>
    cases right with
    | plain name' =>
      rw [plain_typeText, applied_typeText, List.append_assoc] at same
      obtain ⟨-, rfl⟩ := word_unique name name' (open_bracket_ends _) ends'.word same
      exact absurd rfl (ends' _ rfl).2
    | @applied m others name' some' types =>
      simp only [applied_typeText, List.append_assoc, List.cons_append, List.nil_append] at same
      obtain ⟨rfl, behind⟩ := word_unique name name' (open_bracket_ends _) (open_bracket_ends _) same
      obtain ⟨rfl, rest⟩ := separated_unique '>' (by decide) (typeEnds_cons (by decide))
        (typeEnds_cons (by decide)) some some'
        (fun x inArgs y inOthers us vs ends ends' => ih x inArgs (types y inOthers) ends ends')
        (List.cons.inj behind).2
      exact ⟨rfl, rest⟩

theorem typeSuffix_some (ty : Expr) : (typeSuffix (some ty)).toList = ':' :: ' ' :: ty.typeText.toList := by
  rw [typeSuffix, String.toList_append]
  rfl

-- An annotation, or none, and behind it what is no annotation.
theorem typeSuffix_unique {a b : Option Expr} (left : ∀ ty ∈ a, LegibleType ty)
    (right : ∀ ty ∈ b, LegibleType ty) (ends : TypeEnds us) (ends' : TypeEnds vs)
    (other : us.head? ≠ some ':') (other' : vs.head? ≠ some ':')
    (same : (typeSuffix a).toList ++ us = (typeSuffix b).toList ++ vs) : a = b ∧ us = vs := by
  cases a with
  | none =>
    cases b with
    | none => exact ⟨rfl, same⟩
    | some ty =>
      rw [typeSuffix_some] at same
      exact absurd (congrArg List.head? same) other
  | some ty =>
    cases b with
    | none =>
      rw [typeSuffix_some] at same
      exact absurd (congrArg List.head? same).symm other'
    | some ty' =>
      rw [typeSuffix_some, typeSuffix_some] at same
      have types := (List.cons.inj (List.cons.inj same).2).2
      obtain ⟨rfl, behind⟩ := (left ty rfl).unique (right ty' rfl) ends ends' types
      exact ⟨rfl, behind⟩

def keywordChars (val : Bool) : List Char := if val then ['v', 'a', 'l'] else ['v', 'a', 'r']

def staticChars (static : Bool) : List Char := if static then " static".toList else []

theorem modifiers_text (m : Modifiers) :
    m.text.toList = keywordChars m.val ++ staticChars m.static := by
  obtain ⟨val, static⟩ := m
  cases val <;> cases static <;> decide

-- What stands behind the name of a variable is not part of a name, and no further name.
def NameEnds (us : List Char) : Prop := ∀ c ∈ us.head?, isAlphanumeric c = false ∧ c ≠ ' '

theorem NameEnds.word (ends : NameEnds us) : ∀ c ∈ us.head?, isAlphanumeric c = false :=
  fun c first => (ends c first).1

theorem nameEnds_colon (cs : List Char) : NameEnds (':' :: cs) := by
  intro c first
  cases first
  exact ⟨between_words ':' (by decide), by decide⟩

theorem blank_ends (cs : List Char) : ∀ c ∈ (' ' :: cs).head?, isAlphanumeric c = false := by
  intro c first
  cases first
  exact between_words ' ' (by decide)

-- A variable can have the name `static`: what stands behind that word tells which it is.
theorem static_unique {s t : Bool} {m n : String} (left : Word m) (right : Word n) (ends : NameEnds us)
    (ends' : NameEnds vs)
    (same : staticChars s ++ ' ' :: m.toList ++ us = staticChars t ++ ' ' :: n.toList ++ vs) :
    s = t ∧ m = n ∧ us = vs := by
  have staticWord : Word "static" := ⟨by decide, List.all_eq_true.1 (by decide +kernel)⟩
  -- One of two texts has the word, in the other the name takes its place.
  have mixed {n : String} {us vs : List Char} (name : Word n) (ends : NameEnds vs) :
      "static".toList ++ ' ' :: us ≠ n.toList ++ vs := by
    intro same
    obtain ⟨-, rfl⟩ := word_unique staticWord name (blank_ends us) ends.word same
    exact (ends ' ' rfl).2 rfl
  cases s <;> cases t
  · obtain ⟨names, behind⟩ := word_unique left right ends.word ends'.word (List.cons.inj same).2
    exact ⟨rfl, names, behind⟩
  · exact absurd (List.cons.inj same).2.symm (mixed left ends)
  · exact absurd (List.cons.inj same).2 (mixed right ends')
  · have names : m.toList ++ us = n.toList ++ vs :=
      @List.append_cancel_left _ " static ".toList _ _ same
    obtain ⟨names, behind⟩ := word_unique left right ends.word ends'.word names
    exact ⟨rfl, names, behind⟩

theorem declared_unique {k l : Modifiers} {m n : String} (left : Word m) (right : Word n)
    (ends : NameEnds us) (ends' : NameEnds vs)
    (same : (k.text ++ " " ++ m).toList ++ us = (l.text ++ " " ++ n).toList ++ vs) :
    k = l ∧ m = n ∧ us = vs := by
  obtain ⟨val, static⟩ := k
  obtain ⟨val', static'⟩ := l
  simp only [String.toList_append, modifiers_text, List.append_assoc] at same
  have long (b c : Bool) : (keywordChars b).length = (keywordChars c).length := by
    cases b <;> cases c <;> rfl
  have keywords : keywordChars val = keywordChars val' := List.append_inj_left same (long _ _)
  have behind := List.append_inj_right same (long _ _)
  obtain ⟨rfl, names, rest⟩ := static_unique left right ends ends' (by simpa using behind)
  refine ⟨?_, names, rest⟩
  cases val <;> cases val' <;> first | rfl | exact absurd keywords (by decide)

theorem parameter_text (p : Parameter) : p.text.toList =
    (p.modifiers.text ++ " " ++ p.name).toList ++ ':' :: ' ' :: p.ty.typeText.toList := by
  rw [Parameter.text, String.toList_append, String.toList_append (t := ": "), List.append_assoc]
  rfl

theorem parameter_unique {p q : Parameter} (left : Word p.name ∧ LegibleType p.ty)
    (right : Word q.name ∧ LegibleType q.ty) (ends : TypeEnds us) (ends' : TypeEnds vs)
    (same : p.text.toList ++ us = q.text.toList ++ vs) : p = q ∧ us = vs := by
  obtain ⟨modifiers, name, ty⟩ := p
  obtain ⟨modifiers', name', ty'⟩ := q
  rw [parameter_text, parameter_text, List.append_assoc, List.append_assoc] at same
  obtain ⟨rfl, rfl, behind⟩ :=
    declared_unique left.1 right.1 (nameEnds_colon _) (nameEnds_colon _) same
  obtain ⟨rfl, rest⟩ := left.2.unique right.2 ends ends' (List.cons.inj (List.cons.inj behind).2).2
  exact ⟨rfl, rest⟩

-- A parameter does not begin with the character that closes the list.
theorem parameter_opens (p : Parameter) (cs : List Char) : p.text.toList ++ cs ≠ ')' :: vs := by
  rw [parameter_text, String.toList_append, String.toList_append, modifiers_text]
  cases p.modifiers.val <;> exact nofun

theorem parameters_unique {ps qs : List Parameter} (left : ∀ p ∈ ps, Word p.name ∧ LegibleType p.ty)
    (right : ∀ q ∈ qs, Word q.name ∧ LegibleType q.ty)
    (same : separated (ps.map Parameter.text) ++ ')' :: us =
      separated (qs.map Parameter.text) ++ ')' :: vs) : ps = qs ∧ us = vs := by
  have opens {p : Parameter} {ps : List Parameter} {us vs : List Char} :
      separated ((p :: ps).map Parameter.text) ++ us ≠ ')' :: vs := by
    cases ps with
    | nil =>
      rw [List.map_cons, List.map_nil, separated_one]
      exact parameter_opens p us
    | cons q ps =>
      rw [List.map_cons, List.map_cons, separated_more, List.append_assoc]
      exact parameter_opens p _
  cases ps with
  | nil =>
    cases qs with
    | nil => exact ⟨rfl, (List.cons.inj same).2⟩
    | cons q qs => exact absurd same.symm opens
  | cons p ps =>
    cases qs with
    | nil => exact absurd same opens
    | cons q qs =>
      exact separated_unique ')' (by decide) (typeEnds_cons (by decide)) (typeEnds_cons (by decide))
        (List.cons_ne_nil _ _) (List.cons_ne_nil _ _)
        (fun p inPs q inQs us vs ends ends' => parameter_unique (left p inPs) (right q inQs) ends ends')
        same

def internalChars (internal : Bool) : List Char := if internal then " (internal)".toList else []

theorem signature_text (name : String) (parameters : List Parameter) (returnType : Option Expr)
    (internal : Bool) : (signatureText name parameters returnType internal).toList =
      "function ".toList ++ (name.toList ++ '(' :: (separated (parameters.map Parameter.text) ++
        ')' :: ((typeSuffix returnType).toList ++ internalChars internal))) := by
  cases internal <;> simp [signatureText, separated, internalChars]

theorem signature_unique {m n : String} {ps qs : List Parameter} {a b : Option Expr} {i j : Bool}
    (name : '(' ∉ m.toList) (name' : '(' ∉ n.toList)
    (left : ∀ p ∈ ps, Word p.name ∧ LegibleType p.ty) (right : ∀ q ∈ qs, Word q.name ∧ LegibleType q.ty)
    (type : ∀ ty ∈ a, LegibleType ty) (type' : ∀ ty ∈ b, LegibleType ty)
    (same : signatureText m ps a i = signatureText n qs b j) : m = n ∧ ps = qs ∧ a = b ∧ i = j := by
  have before {n : String} (name : '(' ∉ n.toList) : ∀ c ∈ n.toList, (c != '(') = true :=
    fun c within => bne_iff_ne.2 fun same => name (same ▸ within)
  have internalEnds (b : Bool) : TypeEnds (internalChars b) := by
    cases b
    · exact TypeEnds.nil
    · exact typeEnds_cons (by decide) _
  have chars := congrArg String.toList same
  rw [signature_text, signature_text] at chars
  obtain ⟨names, lists⟩ := run_unique (before name) (before name') (by simp) (by simp)
    (List.append_cancel_left chars)
  obtain ⟨rfl, behind⟩ := parameters_unique left right (List.cons.inj lists).2
  obtain ⟨rfl, ending⟩ := typeSuffix_unique type type' (internalEnds i) (internalEnds j)
    (by cases i <;> decide) (by cases j <;> decide) behind
  refine ⟨String.toList_inj.1 names, rfl, rfl, ?_⟩
  cases i <;> cases j <;> first | rfl | exact absurd ending (by decide)

theorem binding_unique {k l : Modifiers} {m n : String} {a b : Option Expr} (left : Word m)
    (right : Word n) (type : ∀ ty ∈ a, LegibleType ty) (type' : ∀ ty ∈ b, LegibleType ty)
    (same : k.text ++ " " ++ m ++ typeSuffix a = l.text ++ " " ++ n ++ typeSuffix b) :
    k = l ∧ m = n ∧ a = b := by
  have suffixEnds (ty : Option Expr) : NameEnds (typeSuffix ty).toList := by
    cases ty with
    | none => exact nofun
    | some ty => rw [typeSuffix_some]; exact nameEnds_colon _
  have chars := congrArg String.toList same
  rw [String.toList_append, String.toList_append (t := typeSuffix b)] at chars
  obtain ⟨rfl, rfl, suffixes⟩ := declared_unique left right (suffixEnds a) (suffixEnds b) chars
  rw [← List.append_nil (typeSuffix a).toList, ← List.append_nil (typeSuffix b).toList] at suffixes
  exact ⟨rfl, rfl, (typeSuffix_unique type type' TypeEnds.nil TypeEnds.nil nofun nofun suffixes).1⟩

theorem generics_text {names : List String} (some : names ≠ []) :
    (genericsText names).toList = '<' :: (separated names ++ ['>']) := by
  rw [genericsText, if_neg some]
  simp [separated]

theorem generics_unique {g h : Option (List String)}
    (left : ∀ names ∈ g, names ≠ [] ∧ ∀ name ∈ names, Word name)
    (right : ∀ names ∈ h, names ≠ [] ∧ ∀ name ∈ names, Word name)
    (same : genericsText (g.getD []) = genericsText (h.getD [])) : g = h := by
  have written {names : List String} (some : names ≠ []) : genericsText [] ≠ genericsText names := by
    intro same
    have chars := congrArg String.toList same
    rw [generics_text some] at chars
    cases chars
  cases g with
  | none =>
    cases h with
    | none => rfl
    | some names => exact absurd same (written (right names rfl).1)
  | some names =>
    cases h with
    | none => exact absurd same.symm (written (left names rfl).1)
    | some names' =>
      obtain ⟨some, words⟩ := left names rfl
      obtain ⟨some', words'⟩ := right names' rfl
      have chars := congrArg String.toList same
      rw [Option.getD_some, Option.getD_some, generics_text some, generics_text some'] at chars
      rw [← List.map_id names, ← List.map_id names'] at chars
      have lists := separated_unique '>' (by decide) (typeEnds_cons (by decide))
        (typeEnds_cons (by decide)) some some'
        (fun x inXs y inYs us vs ends ends' => word_unique (words x inXs) (words' y inYs) ends.word ends'.word)
        (List.cons.inj chars).2
      rw [lists.1]

theorem class_unique {m n : String} {g h : Option (List String)} (left : Word m) (right : Word n)
    (generics : ∀ names ∈ g, names ≠ [] ∧ ∀ name ∈ names, Word name)
    (generics' : ∀ names ∈ h, names ≠ [] ∧ ∀ name ∈ names, Word name)
    (same : "class " ++ m ++ genericsText (g.getD []) = "class " ++ n ++ genericsText (h.getD [])) :
    m = n ∧ g = h := by
  have ends {g : Option (List String)} (written : ∀ names ∈ g, names ≠ [] ∧ ∀ name ∈ names, Word name) :
      ∀ c ∈ (genericsText (g.getD [])).toList.head?, isAlphanumeric c = false := by
    cases g with
    | none => exact nofun
    | some names =>
      rw [Option.getD_some, generics_text (written names rfl).1]
      exact open_bracket_ends _
  have chars := congrArg String.toList same
  simp only [String.toList_append, List.append_assoc] at chars
  obtain ⟨names, behind⟩ := word_unique left right (ends generics) (ends generics')
    (List.append_cancel_left chars)
  exact ⟨names, generics_unique generics generics' (String.toList_inj.1 behind)⟩

end Surface

end Frontend
