import Frontend.Proofs.QuotedText
import Frontend.Text.Outline
import Mathlib.Data.List.Basic

-- Indented lines tell the tree that they show: which lines stand below a line, and what each line says.

namespace Frontend.Text

-- A line, and the blocks that are indented below it.
inductive Block where
  | mk (text : String) (inner : List Block)

namespace Block

def text : Block → String
  | mk text _ => text

def inner : Block → List Block
  | mk _ inner => inner

mutual

def lines (depth : Nat) : Block → List Line
  | mk text inner => ⟨depth, text⟩ :: linesAll (depth + 1) inner

def linesAll (depth : Nat) : List Block → List Line
  | [] => []
  | x :: xs => lines depth x ++ linesAll depth xs

end

theorem linesAll_append (depth : Nat) (xs ys : List Block) :
    linesAll depth (xs ++ ys) = linesAll depth xs ++ linesAll depth ys := by
  induction xs with
  | nil => rw [List.nil_append, linesAll, List.nil_append]
  | cons x xs ih => rw [List.cons_append, linesAll, linesAll, ih, List.append_assoc]

theorem linesAll_single (depth : Nat) (x : Block) : linesAll depth [x] = x.lines depth := by
  rw [linesAll, linesAll, List.append_nil]

theorem head_lines (depth : Nat) (x : Block) (us : List Line) :
    (x.lines depth ++ us).head? = some ⟨depth, x.text⟩ := by
  cases x
  rw [lines, List.cons_append, List.head?_cons, text]

-- What stands behind a block is not indented below it.
def Ends (depth : Nat) (us : List Line) : Prop := ∀ line ∈ us.head?, line.depth < depth

theorem Ends.nil {depth : Nat} : Ends depth [] := nofun

theorem Ends.weaken {low high : Nat} {us : List Line} (ends : Ends low us) (le : low ≤ high) :
    Ends high us :=
  fun line first => (ends line first).trans_le le

theorem ends_linesAll {depth : Nat} {us : List Line} (ends : Ends depth us) (xs : List Block) :
    Ends (depth + 1) (linesAll depth xs ++ us) := by
  cases xs with
  | nil => exact ends.weaken (Nat.le_succ depth)
  | cons x xs =>
    intro line first
    rw [linesAll, List.append_assoc, head_lines] at first
    cases first
    exact Nat.lt_succ_self depth

theorem not_ends {depth : Nat} {x : Block} {us : List Line} : ¬ Ends depth (x.lines depth ++ us) :=
  fun ends => Nat.lt_irrefl depth (ends ⟨depth, x.text⟩ (head_lines depth x us))

mutual

theorem lines_unique {depth : Nat} {us vs : List Line} (ends : Ends (depth + 1) us)
    (ends' : Ends (depth + 1) vs) :
    ∀ x y : Block, x.lines depth ++ us = y.lines depth ++ vs → x = y ∧ us = vs
  | mk text inner, mk text' inner', same => by
    rw [lines, lines, List.cons_append, List.cons_append] at same
    obtain ⟨line, below⟩ := List.cons.inj same
    obtain ⟨rfl, behind⟩ := linesAll_unique ends ends' inner inner' below
    cases line
    exact ⟨rfl, behind⟩

theorem linesAll_unique {depth : Nat} {us vs : List Line} (ends : Ends depth us)
    (ends' : Ends depth vs) :
    ∀ xs ys : List Block, linesAll depth xs ++ us = linesAll depth ys ++ vs → xs = ys ∧ us = vs
  | [], [], same => ⟨rfl, same⟩
  | [], y :: ys, same => by
    rw [linesAll, linesAll, List.append_assoc, List.nil_append] at same
    rw [same] at ends
    exact absurd ends not_ends
  | x :: xs, [], same => by
    rw [linesAll, linesAll, List.append_assoc, List.nil_append] at same
    rw [← same] at ends'
    exact absurd ends' not_ends
  | x :: xs, y :: ys, same => by
    rw [linesAll, linesAll, List.append_assoc, List.append_assoc] at same
    obtain ⟨rfl, others⟩ := lines_unique (ends_linesAll ends xs) (ends_linesAll ends' ys) x y same
    obtain ⟨rfl, behind⟩ := linesAll_unique ends ends' xs ys others
    exact ⟨rfl, behind⟩

end

end Block

-- What a line may say: something on a single line, and not indented by itself.
def Legible (text : String) : Prop :=
  '\n' ∉ text.toList ∧ text.toList ≠ [] ∧ text.toList.head? ≠ some ' '

instance (text : String) : Decidable (Legible text) := inferInstanceAs (Decidable (_ ∧ _ ∧ _))

def Line.chars (line : Line) : List Char :=
  List.replicate (line.depth * indentWidth) ' ' ++ (line.text.toList ++ ['\n'])

theorem renderLines_toList (lines : List Line) : (renderLines lines).toList = lines.flatMap Line.chars := by
  rw [renderLines, String.toList_join, List.flatMap_map]
  congr 1
  funext line
  rw [Line.render, String.toList_append, String.toList_append, String.toList_ofList, Line.chars,
    List.append_assoc]
  rfl

theorem line_unique {a b : Line} {us vs : List Char} (left : Legible a.text) (right : Legible b.text)
    (same : a.chars ++ us = b.chars ++ vs) : a = b ∧ us = vs := by
  have blanks {n : Nat} : ∀ c ∈ List.replicate n ' ', (c == ' ') = true :=
    fun c within => beq_iff_eq.2 (List.eq_of_mem_replicate within)
  have begins {line : Line} (legible : Legible line.text) (us : List Char) :
      ∀ c ∈ (line.text.toList ++ '\n' :: us).head?, (c == ' ') = false := by
    obtain ⟨-, some, other⟩ := legible
    intro c first
    rw [List.head?_append_of_ne_nil _ some] at first
    exact beq_eq_false_iff_ne.2 fun blank => other (blank ▸ first)
  have inLine {line : Line} (legible : Legible line.text) :
      ∀ c ∈ line.text.toList, (c != '\n') = true :=
    fun c within => bne_iff_ne.2 fun same => legible.1 (same ▸ within)
  simp only [Line.chars, List.append_assoc, List.cons_append, List.nil_append] at same
  obtain ⟨indents, texts⟩ := run_unique blanks blanks (begins left us) (begins right vs) same
  obtain ⟨text, behind⟩ := run_unique (inLine left) (inLine right) (by simp) (by simp) texts
  have depth : a.depth = b.depth := by
    have lengths := congrArg List.length indents
    rw [List.length_replicate, List.length_replicate] at lengths
    exact Nat.eq_of_mul_eq_mul_right (by decide) lengths
  refine ⟨?_, (List.cons.inj behind).2⟩
  cases a
  cases b
  cases depth
  cases String.toList_inj.1 text
  rfl

theorem chars_ne_nil (line : Line) : line.chars ≠ [] := by
  simp [Line.chars]

theorem renderLines_injective {xs ys : List Line} (left : ∀ line ∈ xs, Legible line.text)
    (right : ∀ line ∈ ys, Legible line.text) (same : renderLines xs = renderLines ys) : xs = ys := by
  have chars := congrArg String.toList same
  rw [renderLines_toList, renderLines_toList] at chars
  clear same
  induction xs generalizing ys with
  | nil =>
    cases ys with
    | nil => rfl
    | cons y ys => exact absurd (List.append_eq_nil_iff.1 chars.symm).1 (chars_ne_nil y)
  | cons x xs ih =>
    cases ys with
    | nil => exact absurd (List.append_eq_nil_iff.1 chars).1 (chars_ne_nil x)
    | cons y ys =>
      rw [List.forall_mem_cons] at left right
      rw [List.flatMap_cons, List.flatMap_cons] at chars
      obtain ⟨rfl, others⟩ := line_unique left.1 right.1 chars
      rw [ih left.2 right.2 others]

namespace Block

-- Every line of a block is legible.
inductive Clear : Block → Prop where
  | mk {text : String} {inner : List Block} : Legible text → (∀ x ∈ inner, Clear x) →
      Clear (.mk text inner)

mutual

theorem Clear.lines {depth : Nat} :
    ∀ x : Block, x.Clear → ∀ line ∈ x.lines depth, Legible line.text
  | .mk text inner, .mk legible clear => by
    rw [Block.lines]
    exact List.forall_mem_cons.2 ⟨legible, Clear.linesAll inner clear⟩

theorem Clear.linesAll {depth : Nat} :
    ∀ xs : List Block, (∀ x ∈ xs, x.Clear) → ∀ line ∈ Block.linesAll depth xs, Legible line.text
  | [], _ => by rw [Block.linesAll]; exact List.forall_mem_nil _
  | x :: xs, clear => by
    rw [List.forall_mem_cons] at clear
    rw [Block.linesAll]
    exact List.forall_mem_append.2 ⟨Clear.lines x clear.1, Clear.linesAll xs clear.2⟩

end

-- The text of a whole page of blocks tells the blocks.
theorem page_unique {xs ys : List Block} (left : ∀ x ∈ xs, x.Clear) (right : ∀ y ∈ ys, y.Clear)
    (same : renderLines (linesAll 0 xs) = renderLines (linesAll 0 ys)) : xs = ys := by
  have lines := renderLines_injective (Clear.linesAll xs left) (Clear.linesAll ys right) same
  exact (linesAll_unique Ends.nil Ends.nil xs ys (by rw [lines])).1

end Block

end Frontend.Text
