import Frontend.Proofs.AlikeTokens
import Frontend.Proofs.Parts
import Mathlib.Logic.Function.Iterate

-- An expression is the same whatever it stands in: alone, as the initial value of a variable, in
-- parentheses or in a segment of a string.

namespace Frontend

open Reader Scanner Grammar Surface Text

variable {source : String} {ts : List Token} {x : Expr}

def grouped (source : String) : String := "(" ++ source ++ ")"

def interpolated (source : String) : String := "\"$\x7b" ++ source ++ "\x7d\""

def declared (source : String) : String := "var v = " ++ source ++ ";"

-- What stands behind an expression there.
def closings : List (Char × TokenKind) := [(')', .rightParen), ('\x7d', .rightBrace), (';', .semicolon)]

theorem single_closing {d : Char} {kind : TokenKind} (closing : (d, kind) ∈ closings) : Single d kind := by
  simp only [closings, List.mem_cons, Prod.mk.injEq, List.not_mem_nil, or_false] at closing
  rcases closing with ⟨rfl, rfl⟩ | ⟨rfl, rfl⟩ | ⟨rfl, rfl⟩ <;>
    exact ⟨⟨by decide +kernel, rfl, nofun, nofun⟩, rfl, fun ds => by cases ds <;> rfl⟩

theorem grouped_runs (source : String) : Runs (Scanner.ofSource (grouped source))
    [.ofChars .leftParen none 0 ['(']] ((Setting.before 1 ')').scanner (Scanner.ofSource source)) := by
  have characters : (grouped source).toList = '(' :: (source.toList ++ [')']) := by
    simp [grouped]
  have read : (Reader.ofSource (grouped source)).next =
      .ok (some (.ofChars .leftParen none 0 ['('])) ⟨source.toList ++ [')'], 1, [], []⟩ := by
    rw [Reader.ofSource, characters]
    cases source.toList <;> rfl
  exact .token read .refl

theorem grouped_tokens (listed : tokensOf source = .ok ts) (closed : ∀ t ∈ ts.getLast?, ¬ t.Abrupt) :
    ∃ lo, tokensOf (grouped source) = .ok (.ofChars .leftParen none 0 ['('] ::
      ts.map (Token.shift 1) ++ [.ofChars .rightParen none lo [')']]) := by
  have single : Single ')' .rightParen := single_closing (by simp [closings])
  obtain ⟨lo, lists⟩ := single.lists (by decide) 1 listed closed
  exact ⟨lo, tokensOf_ok.2 ((grouped_runs source).lists_tokens lists)⟩

-- In a segment at the start of a string that ends right behind the segment.
def Setting.inString : Setting := ⟨3, ['\x7d', '"'], [.code, .text], [0]⟩

theorem interpolated_runs (source : String) : Runs (Scanner.ofSource (interpolated source))
    [.ofChars .stringBegin none 0 ['"'], .ofChars .stringText (some (.string "")) 1 []]
    (Setting.inString.scanner (Scanner.ofSource source)) := by
  have characters : (interpolated source).toList =
      '"' :: '$' :: '\x7b' :: (source.toList ++ ['\x7d', '"']) := by
    simp [interpolated]
  have opens : (Reader.ofSource (interpolated source)).next =
      .ok (some (.ofChars .stringBegin none 0 ['"']))
        ⟨'$' :: '\x7b' :: (source.toList ++ ['\x7d', '"']), 1, [.text], []⟩ := by
    rw [Reader.ofSource, characters]
    rfl
  exact .token opens (.token rfl .refl)

theorem interpolated_tokens (listed : tokensOf source = .ok ts) (closed : ∀ t ∈ ts.getLast?, ¬ t.Abrupt)
    (walks : Walks False 0 ts) : ∃ lo hi, tokensOf (interpolated source) =
      .ok (.ofChars .stringBegin none 0 ['"'] :: .ofChars .stringText (some (.string "")) 1 [] ::
        (ts.map (Token.shift 3) ++ [.ofChars .rightBrace none lo ['\x7d'],
          .ofChars .stringText (some (.string "")) hi [], .ofChars .stringEnd none hi ['"']])) := by
  have single : Single '\x7d' .rightBrace := single_closing (by simp [closings])
  have apart : Setting.inString.Apart := ⟨by rintro d ⟨⟩; exact single.stops, nofun⟩
  have balanced : Balanced False (Scanner.ofSource source) (ts.map .ok) := ⟨0, ts, rfl, rfl, walks⟩
  obtain ⟨s, done, placed, outside, runs⟩ :=
    reaches_end apart (tokensOf_ok.1 listed) (placed_start source) (.inr balanced) closed
  have outside := outside balanced
  obtain ⟨lo, read⟩ := single.next apart rfl done
  rw [modes_outside placed outside done] at read
  have segments : (Setting.inString.scanner s).segments = [0] := by
    simp [Setting.scanner, Setting.inString, outside]
  let hi := lo + byteLength ['\x7d']
  have lists : Lists (Setting.inString.scanner s) ([Token.ofChars .rightBrace none lo ['\x7d'],
      .ofChars .stringText (some (.string "")) hi [], .ofChars .stringEnd none hi ['"']].map .ok) := by
    refine .token read ?_
    rw [segments]
    exact .token rfl (.token rfl (.ended rfl))
  exact ⟨lo, hi, tokensOf_ok.2 ((interpolated_runs source).lists_tokens (runs.lists_tokens lists))⟩

-- The tokens in front of the initial value.
def heading : List Token :=
  [⟨.varKeyword, "var", none, .ofBounds 0 3⟩, ⟨.identifier, "v", none, .ofBounds 4 5⟩,
    ⟨.assign, "=", none, .ofBounds 6 7⟩]

theorem heading_lists : Lists (Scanner.ofSource "var v =") (heading.map .ok) := by
  have listed : (tokensOf "var v =").toOption = some heading := by decide +kernel
  exact tokensOf_ok.1 (ok_of_toOption listed)

-- The heading itself is a part of the source, in front of a blank.
theorem declared_runs (source : String) : ∃ bytes s, Runs (Scanner.ofSource (declared source)) heading s ∧
    s.reader.next = ((Setting.before bytes ';').scanner (Scanner.ofSource source)).reader.next ∧
    s.segments = [] := by
  let behind : Setting := ⟨0, ' ' :: (source.toList ++ [';']), [], []⟩
  have stops : ∀ d ∈ behind.after.head?, Stops d := by
    rintro d ⟨⟩
    exact ⟨by decide +kernel, rfl, nofun, nofun⟩
  have apart : behind.Apart := ⟨stops, nofun⟩
  have balanced : Balanced False (Scanner.ofSource "var v =") (heading.map .ok) :=
    ⟨0, heading, rfl, rfl, .token rfl (.token rfl (.token rfl .done))⟩
  have start : behind.scanner (Scanner.ofSource "var v =") = Scanner.ofSource (declared source) := by
    simp [Scanner.ofSource, Reader.ofSource, Setting.scanner, Setting.reader, declared, behind]
  obtain ⟨s, done, placed, outside, runs⟩ :=
    reaches_end apart heading_lists (placed_start _) (.inl rfl) (by simp [heading, Token.Abrupt])
  have outside := outside balanced
  have modes := modes_outside placed outside done
  let lo := s.reader.skipBlanks.offset
  have stands : behind.reader s.reader.skipBlanks = ⟨' ' :: (source.toList ++ [';']), lo, [], []⟩ := by
    simp [Setting.reader, skipBlanks, moveTo, done.blank, done.idle, modes, behind, lo]
  have read : (behind.scanner s).reader.next =
      ((Setting.before (lo + 1) ';').scanner (Scanner.ofSource source)).reader.next := by
    rw [Setting.scanner, done.next_setting apart, stands, next_blank rfl]
    rfl
  exact ⟨_, behind.scanner s, start ▸ runs, read, by simp [Setting.scanner, outside, behind]⟩

theorem declared_tokens (source : String) : ∃ bytes, ∀ tokens, tokensOf (declared source) = .ok tokens ↔
    ∃ us, tokens = heading ++ us ∧
      Lists ((Setting.before bytes ';').scanner (Scanner.ofSource source)) (us.map .ok) := by
  obtain ⟨bytes, s, runs, read, outside⟩ := declared_runs source
  refine ⟨bytes, fun tokens => ⟨fun listed => ?_, ?_⟩⟩
  · obtain ⟨rest, same, lists⟩ := runs.rest (tokensOf_ok.1 listed)
    obtain ⟨_, us, rfl, first, rfl⟩ := List.map_eq_append_iff.1 same
    rw [ok_injective first]
    exact ⟨us, rfl, lists.congr read.symm outside.symm⟩
  · rintro ⟨us, rfl, lists⟩
    exact tokensOf_ok.2 (runs.lists_tokens (lists.congr read outside))

theorem Grammar.Derives.alike {place : Span → Span → Prop} {us : List Token}
    (derives : Derives (.infixed 0 x) ts []) (alike : List.Forall₂ (Alike place) ts us) :
    Derives (.infixed 0 x) us [] := by
  have beside : Beside place (fun _ _ => False) false (feedOf ts) (feedOf us) := beside_tokens alike
  -- Where the tokens end makes no difference to what succeeds.
  let eof := Span.empty 0
  have agree : Agree (besideFaults place (fun _ _ => False) eof eof false) _ (Grammar.wholeExpr eof _)
      (Grammar.wholeExpr eof _) := beside_weave.wholeExpr _ _ beside
  rw [derives.wholeExpr] at agree
  rcases agree.split with ⟨_, _, _, s, ran, ran', rfl, -⟩ | ⟨_, _, _, _, ran, -⟩ | ⟨_, _, ran, -⟩ <;>
    cases ran
  obtain ⟨_, -, derives, -⟩ := wholeExpr_gives _ x s ran'
  exact derives

theorem derives_shift (k : Nat) : Derives (.infixed 0 x) (ts.map (Token.shift k)) [] ↔
    Derives (.infixed 0 x) ts [] := by
  have moved : List.Forall₂ (Alike fun _ _ => True) ts (ts.map (Token.shift k)) :=
    List.forall₂_map_right_iff.2 (List.forall₂_same.2 fun _ _ => ⟨rfl, rfl, rfl, trivial⟩)
  have back : List.Forall₂ (Alike fun _ _ => True) (ts.map (Token.shift k)) ts :=
    List.forall₂_map_left_iff.2 (List.forall₂_same.2 fun _ _ => ⟨rfl, rfl, rfl, trivial⟩)
  exact ⟨fun derives => derives.alike back, fun derives => derives.alike moved⟩

-- With more tokens behind it, of which the first does not belong to a list of types.
theorem derives_within (derives : Derives (.infixed 0 x) ts []) (k : Nat) {t : Token}
    (apart : t.kind ∉ typeKinds) (rest : List Token) :
    Derives (.infixed 0 x) (ts.map (Token.shift k) ++ t :: rest) (t :: rest) :=
  ((derives_shift k).2 derives).extend (Next.cons apart)

-- The source ends in a string that nothing closes.
def EndsUnclosed (source : String) : Prop :=
  ∃ ts t, tokensOf source = .ok ts ∧ ts.getLast? = some t ∧ t.Abrupt

theorem expr_tokens (read : readExpr source = .ok x) (closed : ¬ EndsUnclosed source) :
    ∃ ts, tokensOf source = .ok ts ∧ Derives (.infixed 0 x) ts [] ∧ ∀ t ∈ ts.getLast?, ¬ t.Abrupt := by
  obtain ⟨ts, listed, derives⟩ := (readExpr_iff_derives source x).1 read
  exact ⟨ts, listed, derives, fun t last abrupt => closed ⟨ts, t, listed, last, abrupt⟩⟩

theorem readExpr_grouped (read : readExpr source = .ok x) (closed : ¬ EndsUnclosed source) :
    readExpr (grouped source) = .ok (.grouping x) := by
  obtain ⟨ts, listed, derives, closed⟩ := expr_tokens read closed
  obtain ⟨lo, listed⟩ := grouped_tokens listed closed
  have derives := derives_within derives 1 (t := .ofChars .rightParen none lo [')']) nofun []
  exact (readExpr_iff_derives _ _).2
    ⟨_, listed, .operand (.unprefixed (.single (.plain (.group rfl derives rfl))))⟩

-- An interpolation of one segment without any text.
theorem Grammar.Derives.segmented {opening text brace behind ending : Token} (opens : opening.kind = .stringBegin)
    (starts : text.kind = .stringText) (empty : text.text = "")
    (derives : Derives (.infixed 0 x) ts (brace :: [behind, ending])) (closes : brace.kind = .rightBrace)
    (goes : behind.kind = .stringText) (empty' : behind.text = "") (ends : ending.kind = .stringEnd) :
    Derives (.primary (.interpolation [x])) (opening :: text :: ts) [] := by
  have whole := Derives.interpolation opens starts derives closes (.textEnd goes ends)
  simpa [empty, empty', literalText] using whole

theorem readExpr_interpolated (read : readExpr source = .ok x) (closed : ¬ EndsUnclosed source) :
    readExpr (interpolated source) = .ok (.interpolation [x]) ∧ ¬ EndsUnclosed (interpolated source) := by
  obtain ⟨ts, listed, derives, closed⟩ := expr_tokens read closed
  obtain ⟨lo, hi, listed⟩ := interpolated_tokens listed closed (derives.walks .done)
  have derives := derives_within derives 3 (t := .ofChars .rightBrace none lo ['\x7d']) nofun
    [.ofChars .stringText (some (.string "")) hi [], .ofChars .stringEnd none hi ['"']]
  constructor
  · exact (readExpr_iff_derives _ _).2 ⟨_, listed,
      .operand (.unprefixed (.single (.plain (derives.segmented rfl rfl rfl rfl rfl rfl rfl))))⟩
  · rintro ⟨us, t, listed', last, -, empty⟩
    cases listed.symm.trans listed'
    have last : t = .ofChars .stringEnd none hi ['"'] := by
      simpa [List.getLast?_cons, List.getLast?_append, eq_comm] using last
    rw [last] at empty
    exact absurd empty (by simp [Token.ofChars, clamped_cons])

-- The program of one variable `v` with this value, without a type and a getter.
def initialized (x : Expr) : Node := .root [.binding ⟨.var, "v", none, some x, none⟩]

theorem readProgram_declared (read : readExpr source = .ok x) (closed : ¬ EndsUnclosed source) :
    readProgram (declared source) = .ok (initialized x) := by
  obtain ⟨ts, listed, derives, closed⟩ := expr_tokens read closed
  obtain ⟨bytes, spells⟩ := declared_tokens source
  have single : Single ';' .semicolon := single_closing (by simp [closings])
  obtain ⟨lo, lists⟩ := single.lists (by decide) bytes listed closed
  have derives := derives_within derives bytes (t := .ofChars .semicolon none lo [';']) nofun []
  have annotates : SpellsAnnotation none [] := .none
  have binds := @Declares.binding .required .scope ⟨.varKeyword, "var", none, .ofBounds 0 3⟩
    ⟨.identifier, "v", none, .ofBounds 4 5⟩ _ _ _ _ _ _ _ .var rfl annotates
    (@Declares.value _ _ _ ⟨.assign, "=", none, .ofBounds 6 7⟩ _ _ _ _ rfl derives rfl)
  exact (readProgram_iff_declares _ _).2 ⟨_, _, (spells _).2 ⟨_, rfl, lists⟩, rfl, .more binds .none⟩

theorem Grammar.Declares.initialized {endings : Endings} {modifiers : Modifiers} {name : String}
    {tokens rest : List Token} (declares : Declares endings
      (.nodes .scope [.binding ⟨modifiers, name, Option.none, some x, Option.none⟩]) tokens rest) :
    ∃ keyword id assign semicolon us, tokens = keyword :: id :: assign :: us ∧
      Derives (.infixed 0 x) us (semicolon :: rest) ∧ semicolon.kind = .semicolon := by
  cases declares with
  | more node others =>
    cases others
    cases node with
    | binding introduces named annotates ending =>
      cases annotates
      cases ending with
      | value assigns derives ends => exact ⟨_, _, _, _, _, rfl, derives, ends⟩

theorem readExpr_of_declared (read : readProgram (declared source) = .ok (initialized x)) :
    readExpr source = .ok x := by
  obtain ⟨tokens, children, listed, same, declares⟩ := readProgram_declares read
  cases same
  obtain ⟨bytes, spells⟩ := declared_tokens source
  obtain ⟨us, rfl, lists⟩ := (spells tokens).1 listed
  obtain ⟨keyword, id, assign, semicolon, us', same, derives, ends⟩ := declares.initialized
  cases same
  -- The semicolon is the last token of all, and what is in front of it makes up the expression.
  obtain ⟨ts, same, alone⟩ := derives.retract [] rfl
  have same : us = ts ++ [semicolon] := same
  rw [same] at lists
  have single : Single ';' .semicolon := single_closing (by simp [closings])
  have closes : semicolon.kind ≠ .stringEnd := by rw [ends]; exact nofun
  obtain ⟨vs, listed', shifted⟩ := single.of_lists (by decide) closes lists
  rw [shifted] at alone
  exact (readExpr_iff_derives _ _).2 ⟨vs, listed', (derives_shift bytes).1 alone⟩

-- Reading an expression does not depend on what it stands in.
--
-- An expression that is read on its own, and does not end in a string that only its end closes, is read as
-- the same expression as the initial value of a variable, in parentheses, and in segments of strings, to
-- any depth; and what is read as the initial value of a variable is read on its own.
theorem expr_in_contexts (source : String) :
    (∀ x, readExpr source = .ok x → ¬ EndsUnclosed source →
      readProgram (declared source) = .ok (initialized x) ∧
      readExpr (grouped source) = .ok (.grouping x) ∧
      ∀ n, readExpr (interpolated^[n] source) = .ok ((fun y => .interpolation [y])^[n] x)) ∧
    ∀ x, readProgram (declared source) = .ok (initialized x) → readExpr source = .ok x := by
  refine ⟨fun x read closed => ⟨readProgram_declared read closed, readExpr_grouped read closed, fun n => ?_⟩,
    fun x read => readExpr_of_declared read⟩
  induction n generalizing source x with
  | zero => exact read
  | succ n ih =>
    obtain ⟨read, closed⟩ := readExpr_interpolated read closed
    exact ih _ _ read closed

theorem expr_in_contexts_nested :
    let source := "\"a$\x7bb\x7d\""
    let x : Expr := .interpolation [.literal (.string "a"), .ident "b" none]
    readProgram (declared source) = .ok (initialized x) ∧ readExpr (grouped source) = .ok (.grouping x) ∧
      readExpr (interpolated (interpolated source)) = .ok (.interpolation [.interpolation [x]]) ∧
      readExpr source = .ok x := by
  intro source x
  have read : readExpr source = .ok x := ok_of_toOption (by decide +kernel)
  have quote : ((tokensOf source).toOption.bind List.getLast?).map Token.text = some "\"" := by
    decide +kernel
  have closed : ¬ EndsUnclosed source := by
    rintro ⟨ts, t, listed, last, -, empty⟩
    have found : ((tokensOf source).toOption.bind List.getLast?).map Token.text = some t.text := by
      rw [listed]
      exact congrArg (Option.map Token.text) last
    rw [empty, quote] at found
    exact absurd found (by simp)
  obtain ⟨value, group, nested⟩ := (expr_in_contexts source).1 x read closed
  exact ⟨value, group, nested 2, (expr_in_contexts source).2 x value⟩

-- A string that only its end closes takes up what stands behind it.
example : (readExpr "\"a").isOk = true ∧ (readProgram (declared "\"a")).isOk = false := by
  decide +kernel

end Frontend
