import Frontend.Proofs.SourceTiling
import Frontend.Proofs.Cursor
import Mathlib.Data.List.Chain

-- Going on behind an error.  What is answered token by token, errors included, lies in the source in order,
-- and each character that is not a blank belongs to one answer.  There is one exception: the right bound of a
-- range without blanks can be too great.  Its error then comes ahead of the points in front of it, and the
-- left bound is lost.

namespace Frontend

open Reader Scanner Text

def spanOf : Answer → Span
  | .ok t => t.span
  | .error e => e.span

def kindOf? : Answer → Option TokenKind
  | .ok t => some t.kind
  | .error _ => none

-- The answers and the gaps between them are the characters from byte `lo` on.
inductive Spread : Option TokenKind → Nat → List Char → List Answer → Prop where
  | ended {before : Option TokenKind} {lo : Nat} {gap : List Char} : Gap before none gap → Spread before lo gap []
  | answer {before : Option TokenKind} {lo : Nat} {gap text rest : List Char} {a : Answer} {answers : List Answer} :
      Gap before (kindOf? a) gap →
      spanOf a = Span.ofBounds (lo + byteLength gap) (lo + byteLength gap + byteLength text) →
      Spread (kindOf? a) (lo + byteLength gap + byteLength text) rest answers →
      Spread before lo (gap ++ (text ++ rest)) (a :: answers)
  -- The error at the right bound comes first, and the left bound is not answered.
  | overtaken {before : Option TokenKind} {lo points : Nat} {gap left right rest : List Char}
      {e : Located LexicalError} {answers : List Answer} : Gap before none gap → (∀ c ∈ left, c.isDigit = true) →
      points = lo + byteLength gap + byteLength left →
      e.span = Span.ofBounds (points + 2) (points + 2 + byteLength right) →
      Spread (some .dotDot) (points + 2 + byteLength right) rest answers →
      Spread before lo (gap ++ (left ++ '.' :: '.' :: (right ++ rest)))
        (.error e :: .ok (.ofChars .dotDot none points ['.', '.']) :: answers)

-- The error stands at byte `lo`, and the reader goes on behind it.
inductive FaultsAt (modes : List Mode) (lo : Nat) : List Char → Located LexicalError → Reader → Prop where
  | bad {text rest : List Char} {e : Located LexicalError} : e.span = Span.ofBounds lo (lo + byteLength text) →
      FaultsAt modes lo (text ++ rest) e ⟨rest, lo + byteLength text, modes, []⟩
  | overtakes {left right rest : List Char} {e : Located LexicalError} {points : Nat} :
      (∀ c ∈ left, c.isDigit = true) → points = lo + byteLength left →
      e.span = Span.ofBounds (points + 2) (points + 2 + byteLength right) →
      FaultsAt modes lo (left ++ '.' :: '.' :: (right ++ rest)) e
        ⟨rest, points + 2 + byteLength right, modes, [.ofChars .dotDot none points ['.', '.']]⟩

variable {depth lo : Nat} {r r' : Reader} {e : Located LexicalError} {t : Token} {c : Char}
  {cs rest digits : List Char} {before : Option TokenKind} {answers : List Answer}

theorem integerToken_span (fails : integerToken lo digits = .error e) :
    e.span = Span.ofBounds lo (lo + byteLength digits) := by
  rw [(integerToken_eq_error.1 fails).2]

theorem range_digits (digit : c.isDigit = true) (range : Numeral.ofChars c cs = .range digits rest) :
    ∀ d ∈ digits, d.isDigit = true := by
  have same : digits = c :: cs.takeWhile Char.isDigit := by
    rw [← Numeral.ofChars_digits, range, Numeral.digits]
  rw [same]
  exact List.forall_mem_cons.2 ⟨digit, List.all_eq_true.1 List.all_takeWhile⟩

theorem readRange_faults (idle : r.deferred = []) (all : ∀ d ∈ digits, d.isDigit = true)
    (failed : r.readRange digits rest = .error e r') :
    FaultsAt r.modes r.offset (digits ++ '.' :: '.' :: rest) e r' := by
  have outcome := r.readRange_outcome digits rest
  rw [failed] at outcome
  cases outcome with
  | leftGreat fails =>
    rw [moveTo, idle]
    exact .bad (integerToken_span fails)
  | rightGreat _ _ fails =>
    have whole : digits ++ '.' :: '.' :: rest =
        digits ++ '.' :: '.' :: (rest.takeWhile Char.isDigit ++ rest.dropWhile Char.isDigit) := by
      rw [List.takeWhile_append_dropWhile]
    have moved (bound : List Char) : r.offset + (byteLength digits + 2 + byteLength bound) =
        r.offset + byteLength digits + 2 + byteLength bound := by omega
    rw [whole, moveTo, moved]
    exact .overtakes all rfl (integerToken_span fails)

theorem readToken_faults (idle : r.deferred = []) (failed : r.readToken c cs = .error e r') :
    FaultsAt r.modes r.offset (c :: cs) e r' := by
  have number := numeral_chars c cs
  have outcome := r.readToken_outcome c cs
  rw [failed] at outcome
  cases outcome with
  | range digit found failed =>
    rw [found] at number
    rw [← number]
    exact readRange_faults idle (range_digits digit found) failed
  | great _ found fails =>
    rw [found] at number
    rw [← number, moveTo, idle]
    exact .bad (integerToken_span fails)
  | unexpected =>
    rw [moveTo, idle, show c :: cs = [c] ++ cs from rfl]
    exact .bad (by simp)

theorem next_faults (plain : r.Plain depth) (failed : r.next = .error e r') :
    ∃ blanks cs, r.rest = blanks ++ cs ∧ (∀ c ∈ blanks, isBlank c = true) ∧
      FaultsAt r.modes (r.offset + byteLength blanks) cs e r' := by
  refine ⟨r.rest.takeWhile isBlank, r.rest.dropWhile isBlank, List.takeWhile_append_dropWhile.symm,
    List.all_eq_true.1 List.all_takeWhile, ?_⟩
  have outcome := r.next_outcome
  rw [failed] at outcome
  cases outcome with
  | text _ inside => exact absurd (plain.modes.symm.trans inside) (noText_modesOf _ _)
  | token idle _ front failed =>
    rw [front]
    exact readToken_faults (r := r.skipBlanks) idle failed

theorem laid_code (depth lo : Nat) (cs : List Char) (noBegin : before ≠ some .stringBegin)
    (noText : before ≠ some .stringText) : Laid depth ⟨cs, lo, modesOf depth, []⟩ before lo cs :=
  .code rfl (List.forall_mem_nil _) noBegin noText .none

-- Where no segment is left, the braces are never in balance.
theorem behind_unclosed : (behind (List.replicate depth 1) t r).reader = r := by
  unfold behind
  cases depth <;> split <;> first | rfl | simp_all [List.replicate_succ]

theorem Laid.token (laid : Laid depth r before lo cs) (read : r.next = .ok (some t) r') :
    ∃ depth' gap text rest, cs = gap ++ text ++ rest ∧ Gap before (some t.kind) gap ∧
      t.Covers (lo + byteLength gap) text ∧
      Laid depth' r' (some t.kind) (lo + byteLength gap + byteLength text) rest := by
  have laid' : Laid (List.replicate depth 1).length r before lo cs := by rwa [List.length_replicate]
  obtain ⟨gap, text, rest, whole, between, covers, later⟩ := laid_next (s := ⟨r, _⟩) laid' read
  rw [behind_unclosed] at later
  exact ⟨_, gap, text, rest, whole, between, covers, later⟩

theorem Laid.ended (laid : Laid depth r before lo cs) (read : r.next = .ok none r') : Gap before none cs := by
  have laid' : Laid (List.replicate depth 1).length r before lo cs := by rwa [List.length_replicate]
  exact laid_end (s := ⟨r, _⟩) laid' read

theorem Laid.faults (laid : Laid depth r before lo cs) (failed : r.next = .error e r') :
    ∃ gap rest, cs = gap ++ rest ∧ Gap before none gap ∧
      FaultsAt (modesOf depth) (lo + byteLength gap) rest e r' := by
  cases laid with
  | code modes waiting noBegin noText queued =>
    cases waits : r.deferred with
    | cons u queue => cases (next_waiting waits).symm.trans failed
    | nil =>
      rw [waits] at queued
      obtain ⟨rfl, rfl⟩ := queued.idle
      obtain ⟨blanks, cs, front, blank, faults⟩ := next_faults ⟨modes, waits⟩ failed
      rw [modes] at faults
      exact ⟨blanks, cs, front, .blank noBegin noText (no_kind _) (no_kind _) blank, faults⟩
  | segment plain offset =>
    obtain ⟨blanks, cs, front, blank, faults⟩ := next_faults plain failed
    have opening : r.offset + byteLength blanks = lo + byteLength ('$' :: '{' :: blanks) := by
      rw [offset, byteLength_opening, Nat.add_assoc]
    rw [plain.modes, opening] at faults
    exact ⟨'$' :: '{' :: blanks, cs, congrArg ('$' :: '{' :: ·) front, .segment (no_kind _) (no_kind _) blank,
      faults⟩
  | text stands kinds =>
    obtain ⟨u, r'', read, -⟩ := next_text stands
    cases read.symm.trans failed
  | ends stands queued =>
    obtain ⟨u, r'', read, -⟩ := next_atEnd stands
    cases read.symm.trans failed

theorem Laid.spread (r : Reader) {depth lo : Nat} {before : Option TokenKind} {cs : List Char}
    (laid : Laid depth r before lo cs) : Spread before lo cs r.answers := by
  cases read : r.next with
  | ok found r' =>
    cases found with
    | none =>
      rw [answers_end read]
      exact .ended (laid.ended read)
    | some t =>
      rw [answers_token read]
      obtain ⟨depth', gap, text, rest, rfl, between, covers, behind⟩ := laid.token read
      rw [List.append_assoc]
      exact .answer between covers.span (Laid.spread r' behind)
  | error e r' =>
    rw [answers_error read]
    obtain ⟨gap, rest, rfl, between, faults⟩ := laid.faults read
    cases faults with
    | bad span => exact .answer between span (Laid.spread _ (laid_code depth _ _ (no_kind _) (no_kind _)))
    | overtakes all place span =>
      rw [answers_token rfl]
      exact .overtaken between all place span (Laid.spread _ (laid_code depth _ _ (by simp) (by simp)))
termination_by r.weight
decreasing_by all_goals
  have below := r.next_below
  rw [read] at below
  first
  | exact below
  | (simp only [StepBelow, weight, List.length_nil, List.length_singleton] at below ⊢; omega)

-- The characters from byte `lo` up to byte `hi` lie in the span of the answer.
def holds (lo hi : Nat) (a : Answer) : Bool := (spanOf a).lo ≤ lo && hi ≤ (spanOf a).hi

-- One of the two bytes that open a segment behind a text.
def OpensSegment (source : String) (answers : List Answer) (place : Nat) : Prop :=
  ∃ t, .ok t ∈ answers ∧ t.kind = .stringText ∧ Occurs source "$\x7b" t.span.hi (t.span.hi + 2) ∧
    (place = t.span.hi ∨ place = t.span.hi + 1)

-- Answers come in the order of their spans, and each character that says something lies in one of them.
structure Lossless (source : String) (answers : List Answer) : Prop where
  order : answers.IsChain fun a b => (spanOf a).hi ≤ (spanOf b).lo
  once : ∀ c lo hi, Occurs source (.singleton c) lo hi → isBlank c = false → ¬ OpensSegment source answers lo →
    answers.countP (holds lo hi) = 1

-- An error at a right bound, ahead of the points in front of that bound.
def Overtakes (points : Nat) (a b : Answer) : Prop :=
  ∃ e t, a = .error e ∧ b = .ok t ∧ t.kind = .dotDot ∧ t.span = Span.ofBounds points (points + 2) ∧
    e.span.lo = points + 2

-- The second answer starts behind the first one, or it was overtaken by it.
def InTurn (a b : Answer) : Prop := (spanOf a).hi ≤ (spanOf b).lo ∨ ∃ points, Overtakes points a b

def Overtaken (answers : List Answer) (points : Nat) : Prop :=
  ∃ a b, [a, b] <:+: answers ∧ Overtakes points a b

-- A byte of the left bound in front of points that were overtaken.
def LeftOut (source : String) (answers : List Answer) (place : Nat) : Prop :=
  ∃ points left lo, Overtaken answers points ∧ Occurs source left lo points ∧
    (∀ c ∈ left.toList, c.isDigit = true) ∧ lo ≤ place ∧ place < points

-- The characters are answered for once, or they are left out.
def Accounted (source : String) (all answers : List Answer) (lo hi : Nat) : Prop :=
  answers.countP (holds lo hi) = 1 ∨ LeftOut source all lo ∧ answers.countP (holds lo hi) = 0

-- The same, but for ranges whose right bound is too great.
structure NearlyLossless (source : String) (answers : List Answer) : Prop where
  order : answers.IsChain InTurn
  once : ∀ c lo hi, Occurs source (.singleton c) lo hi → isBlank c = false → ¬ OpensSegment source answers lo →
    Accounted source answers answers lo hi

variable {source : String} {all : List Answer} {gap front ahead back xs ys : List Char} {after : Option TokenKind}
  {a : Answer} {place hi : Nat}

theorem holds_iff : holds place hi a = true ↔ (spanOf a).lo ≤ place ∧ hi ≤ (spanOf a).hi := by
  simp only [holds, Bool.and_eq_true, decide_eq_true_eq]

theorem later_hold_nothing (starts : ∀ a ∈ answers, lo ≤ (spanOf a).lo) (inFront : place < lo) :
    answers.countP (holds place hi) = 0 :=
  List.countP_eq_zero.2 fun a among inside => by
    have := (holds_iff.1 inside).1
    have := starts a among
    omega

theorem countP_holds (inside : (spanOf a).lo ≤ place ∧ hi ≤ (spanOf a).hi)
    (starts : ∀ a ∈ answers, lo ≤ (spanOf a).lo) (inFront : place < lo) :
    (a :: answers).countP (holds place hi) = 1 := by
  rw [List.countP_cons_of_pos (holds_iff.2 inside), later_hold_nothing starts inFront]

theorem countP_apart (apart : place < (spanOf a).lo ∨ (spanOf a).hi < hi) :
    (a :: answers).countP (holds place hi) = answers.countP (holds place hi) :=
  List.countP_cons_of_neg fun inside => by
    have := holds_iff.1 inside
    omega

-- A character is on this side of a cut or on the other.
theorem cut_cases (whole : xs ++ ys = ahead ++ c :: back) :
    (∃ more, xs = ahead ++ c :: more) ∨ ∃ ahead', ahead = xs ++ ahead' ∧ ys = ahead' ++ c :: back := by
  rcases List.append_eq_append_iff.1 whole with ⟨more, beyond, rest⟩ | ⟨more, beyond, rest⟩
  · exact .inr ⟨more, beyond, rest⟩
  · rcases more with _ | ⟨d, more⟩
    · rw [List.append_nil] at beyond
      exact .inr ⟨[], by rw [beyond, List.append_nil], rest.symm⟩
    · obtain ⟨rfl, -⟩ := List.cons.inj rest
      exact .inl ⟨more, beyond⟩

theorem cut_bytes (inside : ∃ more, xs = ahead ++ c :: more) : byteLength ahead + c.utf8Size ≤ byteLength xs := by
  obtain ⟨more, rfl⟩ := inside
  rw [byteLength_append, byteLength_cons]
  omega

theorem byteLength_points (cs : List Char) : byteLength ('.' :: '.' :: cs) = 2 + byteLength cs := by
  rw [byteLength_cons, byteLength_cons, ← Nat.add_assoc]
  rfl

theorem points_bounds (points : Nat) :
    (spanOf (.ok (.ofChars .dotDot none points ['.', '.']))).lo = points ∧
      (spanOf (.ok (.ofChars .dotDot none points ['.', '.']))).hi = points + 2 :=
  ⟨rfl, Span.hi_ofBounds points (points + 2) (Nat.le_add_right _ _) (by rw [Nat.add_sub_cancel_left]; decide)⟩

theorem Gap.opening (between : Gap before after gap) (whole : source.toList = front ++ (gap ++ rest))
    (behindText : before = some .stringText →
      ∃ t, .ok t ∈ all ∧ t.kind = .stringText ∧ t.span.hi = byteLength front)
    (inGap : ∃ more, gap = ahead ++ c :: more) (noBlank : isBlank c = false) :
    OpensSegment source all (byteLength front + byteLength ahead) := by
  obtain ⟨more, cut⟩ := inGap
  have blank {blanks : List Char} (all : ∀ d ∈ blanks, isBlank d = true) (among : c ∈ blanks) : False := by
    have := all c among
    rw [noBlank] at this
    cases this
  cases between with
  | text | ending => simp at cut
  | blank _ _ _ _ blanks => exact (blank blanks (by simp [cut])).elim
  | @segment _ blanks _ _ allBlank =>
    obtain ⟨t, among, kind, hi⟩ := behindText rfl
    have here : source.toList = front ++ ['$', '{'] ++ (blanks ++ rest) := by
      simpa only [List.append_assoc, List.cons_append, List.nil_append] using whole
    have occurs := occurs_of_chars here
    rw [← hi] at occurs ⊢
    refine ⟨t, among, kind, occurs, ?_⟩
    rcases ahead with _ | ⟨d, _ | ⟨d', ahead⟩⟩
    · exact .inl rfl
    · obtain ⟨rfl, -⟩ := List.cons.inj cut
      exact .inr rfl
    · obtain ⟨-, -, others⟩ : '$' = d ∧ '{' = d' ∧ blanks = ahead ++ c :: more := by simpa using cut
      exact (blank allBlank (by simp [others])).elim

theorem Spread.starts (spread : Spread before lo cs answers) : ∀ a ∈ answers, lo ≤ (spanOf a).lo := by
  induction spread with
  | ended => exact List.forall_mem_nil _
  | answer between span _ ih =>
    refine List.forall_mem_cons.2 ⟨?_, fun a among => ?_⟩
    · rw [span, Span.lo_ofBounds]
      omega
    · have := ih a among
      omega
  | @overtaken _ lo _ gap left _ _ e _ between all place span _ ih =>
    refine List.forall_mem_cons.2 ⟨?_, List.forall_mem_cons.2 ⟨?_, fun a among => ?_⟩⟩
    · rw [spanOf, span, Span.lo_ofBounds]
      omega
    · rw [spanOf, Token.ofChars, Span.lo_ofBounds]
      omega
    · have := ih a among
      omega

theorem Spread.ordered (spread : Spread before lo cs answers) (short : lo + byteLength cs ≤ Span.maxLen) :
    answers.IsChain InTurn := by
  have chained {a : Answer} {lo : Nat} {answers : List Answer} (later : ∀ b ∈ answers, lo ≤ (spanOf b).lo)
      (inFront : (spanOf a).hi ≤ lo) (chain : answers.IsChain InTurn) : (a :: answers).IsChain InTurn :=
    List.isChain_cons.2 ⟨fun b head => .inl (Nat.le_trans inFront (later b (List.mem_of_mem_head? head))), chain⟩
  induction spread with
  | ended => exact .nil
  | @answer _ lo gap text rest a answers between span others ih =>
    simp only [byteLength_append] at short
    refine chained others.starts ?_ (ih (by omega))
    rw [span, Span.hi_ofBounds _ _ (Nat.le_add_right _ _) (by omega)]
  | @overtaken _ lo points gap left right rest e answers between all place span others ih =>
    simp only [byteLength_append, byteLength_points] at short
    refine List.isChain_cons.2 ⟨fun b head => .inr ⟨points, ?_⟩, chained others.starts ?_ (ih (by omega))⟩
    · cases head
      exact ⟨e, _, rfl, rfl, rfl, rfl, by rw [span, Span.lo_ofBounds]⟩
    · rw [(points_bounds points).2]
      exact Nat.le_add_right _ _

section Character

variable {text left right : List Char} {start points : Nat}

theorem accounted_answer (span : spanOf a = Span.ofBounds start (start + byteLength text))
    (short : byteLength text ≤ Span.maxLen) (starts : ∀ b ∈ answers, start + byteLength text ≤ (spanOf b).lo)
    (here : text ++ rest = ahead ++ c :: back) (atPlace : place = start + byteLength ahead)
    (later : ∀ ahead', rest = ahead' ++ c :: back → place = start + byteLength text + byteLength ahead' →
      Accounted source all answers place (place + c.utf8Size)) :
    Accounted source all (a :: answers) place (place + c.utf8Size) := by
  have size := c.utf8Size_pos
  have first : (spanOf a).lo = start := by rw [span, Span.lo_ofBounds]
  have last : (spanOf a).hi = start + byteLength text := by
    rw [span, Span.hi_ofBounds _ _ (Nat.le_add_right _ _) (by omega)]
  rcases cut_cases here with inText | ⟨ahead', rfl, behind⟩
  · have inside := cut_bytes inText
    exact .inl (countP_holds (by omega) starts (by omega))
  · rw [byteLength_append] at atPlace
    rw [Accounted, countP_apart (.inr (by omega))]
    exact later ahead' behind (by omega)

-- The characters in front of the points are left out; the others are accounted for by the error and the points.
theorem accounted_overtaken (digits : ∀ d ∈ left, d.isDigit = true) (behindLeft : points = start + byteLength left)
    (occurs : Occurs source (.ofList left) start points)
    (inARow : [.error e, .ok (.ofChars .dotDot none points ['.', '.'])] <:+: all)
    (span : e.span = Span.ofBounds (points + 2) (points + 2 + byteLength right))
    (short : byteLength right ≤ Span.maxLen) (starts : ∀ b ∈ answers, points + 2 + byteLength right ≤ (spanOf b).lo)
    (here : left ++ '.' :: '.' :: (right ++ rest) = ahead ++ c :: back) (atPlace : place = start + byteLength ahead)
    (later : ∀ ahead', rest = ahead' ++ c :: back → place = points + 2 + byteLength right + byteLength ahead' →
      Accounted source all answers place (place + c.utf8Size)) :
    Accounted source all (.error e :: .ok (.ofChars .dotDot none points ['.', '.']) :: answers) place
      (place + c.utf8Size) := by
  have size := c.utf8Size_pos
  obtain ⟨pointsFirst, pointsLast⟩ := points_bounds points
  have errorFirst : (spanOf (.error e)).lo = points + 2 := by rw [spanOf, span, Span.lo_ofBounds]
  have errorLast : (spanOf (.error e)).hi = points + 2 + byteLength right := by
    rw [spanOf, span, Span.hi_ofBounds _ _ (Nat.le_add_right _ _) (by omega)]
  rcases cut_cases here with inLeft | ⟨ahead₁, rfl, here₁⟩
  · have inside := cut_bytes inLeft
    have leftOut : LeftOut source all place :=
      ⟨points, _, start, ⟨_, _, inARow, e, _, rfl, rfl, rfl, rfl, errorFirst⟩, occurs, by rwa [String.toList_ofList],
        by omega, by omega⟩
    refine .inr ⟨leftOut, ?_⟩
    rw [countP_apart (.inl (by omega)), countP_apart (.inl (by omega)), later_hold_nothing starts (by omega)]
  have here₁ : ['.', '.'] ++ (right ++ rest) = ahead₁ ++ c :: back := here₁
  rcases cut_cases here₁ with inPoints | ⟨ahead₂, rfl, here₂⟩
  · have inside := cut_bytes inPoints
    simp only [byteLength_append, byteLength_points, byteLength_nil] at atPlace inside
    rw [Accounted, countP_apart (.inl (by omega))]
    exact .inl (countP_holds (by omega) starts (by omega))
  rcases cut_cases here₂ with inRight | ⟨ahead₃, rfl, here₃⟩
  · have inside := cut_bytes inRight
    simp only [byteLength_append, byteLength_points, byteLength_nil] at atPlace
    rw [Accounted, List.countP_cons_of_pos (holds_iff.2 (by omega)), countP_apart (.inr (by omega)),
      later_hold_nothing starts (by omega)]
    exact .inl rfl
  · simp only [byteLength_append, byteLength_points, byteLength_nil] at atPlace
    rw [Accounted, countP_apart (.inr (by omega)), countP_apart (.inr (by omega))]
    exact later ahead₃ here₃ (by omega)

end Character

theorem Spread.once (short : source.utf8ByteSize ≤ Span.maxLen) (noBlank : isBlank c = false)
    (spread : Spread before lo cs answers) : ∀ front ahead : List Char,
    source.toList = front ++ cs → byteLength front = lo → cs = ahead ++ c :: back → answers <:+ all →
    (before = some .stringText → ∃ t, .ok t ∈ all ∧ t.kind = .stringText ∧ t.span.hi = lo) →
    place = lo + byteLength ahead → ¬ OpensSegment source all place →
    Accounted source all answers place (place + c.utf8Size) := by
  have within {front cs : List Char} (whole : source.toList = front ++ cs) :
      byteLength front + byteLength cs ≤ Span.maxLen := by
    rwa [← byteLength_append, ← whole, byteLength_toList]
  induction spread with
  | @ended _ lo gap between =>
    rintro front ahead whole rfl rfl suffix behindText rfl opens
    rw [← List.append_nil (ahead ++ c :: back)] at whole
    exact absurd (between.opening whole behindText ⟨_, rfl⟩ noBlank) opens
  | @answer _ lo gap text rest a answers between span others ih =>
    rintro front ahead whole rfl here suffix behindText atPlace opens
    have bytes := within whole
    simp only [byteLength_append] at bytes
    rcases cut_cases here with inGap | ⟨ahead', rfl, behindGap⟩
    · rw [atPlace] at opens
      exact absurd (between.opening whole behindText inGap noBlank) opens
    rw [byteLength_append, ← Nat.add_assoc] at atPlace
    refine accounted_answer span (by omega) others.starts behindGap atPlace fun later here atPlace => ?_
    refine ih (front ++ gap ++ text) later ?_ ?_ here ((List.suffix_cons _ _).trans suffix) (fun isText => ?_) atPlace
      opens
    · simpa only [List.append_assoc] using whole
    · simp only [byteLength_append]
    · rcases a with e | t
      · cases isText
      · refine ⟨t, suffix.subset List.mem_cons_self, Option.some.inj isText, ?_⟩
        have last := congrArg Span.hi span
        rwa [Span.hi_ofBounds _ _ (Nat.le_add_right _ _) (by omega)] at last
  | @overtaken _ lo points gap left right rest e answers between digits behindLeft span others ih =>
    rintro front ahead whole rfl here suffix behindText atPlace opens
    have bytes := within whole
    simp only [byteLength_append, byteLength_points] at bytes
    rcases cut_cases here with inGap | ⟨ahead', rfl, behindGap⟩
    · rw [atPlace] at opens
      exact absurd (between.opening whole behindText inGap noBlank) opens
    rw [byteLength_append, ← Nat.add_assoc] at atPlace
    have occurs : Occurs source (.ofList left) (byteLength front + byteLength gap) points := by
      rw [behindLeft, ← byteLength_append]
      exact occurs_of_chars (by simpa only [List.append_assoc] using whole)
    have inARow : [.error e, .ok (.ofChars .dotDot none points ['.', '.'])] <:+: all :=
      List.IsInfix.trans ⟨[], answers, rfl⟩ suffix.isInfix
    refine accounted_overtaken digits behindLeft occurs inARow span (by omega) others.starts behindGap atPlace
      fun later here atPlace => ?_
    refine ih (front ++ (gap ++ (left ++ '.' :: '.' :: right))) later ?_ ?_ here ?_ (by simp) atPlace opens
    · simpa only [List.append_assoc, List.cons_append] using whole
    · simp only [byteLength_append, byteLength_points]
      omega
    · exact ((List.suffix_cons _ _).trans (List.suffix_cons _ _)).trans suffix

theorem Spread.nearlyLossless (short : source.utf8ByteSize ≤ Span.maxLen)
    (spread : Spread none 0 source.toList answers) : NearlyLossless source answers where
  order := spread.ordered (by rwa [byteLength_toList, Nat.zero_add])
  once c lo hi occurs noBlank opens := by
    obtain ⟨front, back, rfl, rfl, rfl⟩ := occurs
    have here : (front ++ .singleton c ++ back).toList = front.toList ++ c :: back.toList := by
      simp only [String.toList_append, String.toList_singleton, List.append_assoc, List.singleton_append]
    have start : front.utf8ByteSize = 0 + byteLength front.toList := by rw [Nat.zero_add, byteLength_toList]
    rw [String.utf8ByteSize_append, String.utf8ByteSize_singleton]
    exact spread.once short noBlank [] front.toList rfl rfl here List.suffix_rfl (fun same => nomatch same) start opens

theorem Overtakes.backwards {points : Nat} {a b : Answer} (overtakes : Overtakes points a b) :
    ¬ (spanOf a).hi ≤ (spanOf b).lo := by
  obtain ⟨e, t, rfl, rfl, -, span, behind⟩ := overtakes
  have : (spanOf (.ok t)).lo = points := by rw [spanOf, span, Span.lo_ofBounds]
  have : e.span.lo ≤ (spanOf (.error e)).hi := Nat.le_add_right _ _
  omega

theorem NearlyLossless.lossless_iff (nearly : NearlyLossless source answers) :
    Lossless source answers ↔ ∀ points, ¬ Overtaken answers points := by
  constructor
  · rintro lossless points ⟨a, b, inARow, overtakes⟩
    have order := lossless.order.infix inARow
    rw [List.isChain_pair] at order
    exact overtakes.backwards order
  · refine fun none => ⟨?_, fun c lo hi occurs noBlank opens => ?_⟩
    · refine List.isChain_iff_forall_rel_of_append_cons_cons.2 fun a b before behind whole => ?_
      have inARow : [a, b] <:+: answers := ⟨before, behind, by rw [whole, List.append_assoc]; rfl⟩
      have order := nearly.order.infix inARow
      rw [List.isChain_pair] at order
      exact Or.resolve_right order fun ⟨points, overtakes⟩ => none points ⟨a, b, inARow, overtakes⟩
    · refine (nearly.once c lo hi occurs noBlank opens).resolve_right ?_
      rintro ⟨⟨points, -, -, overtaken, -⟩, -⟩
      exact none points overtaken

-- Going on behind errors loses nothing, but for the left bounds of ranges whose right bound is too great.
theorem drain_lossless_iff (source : String) (short : source.utf8ByteSize < UInt32.size) :
    let answers := (TokenStream.ofSource source).drain
    NearlyLossless source answers ∧ (Lossless source answers ↔ ∀ points, ¬ Overtaken answers points) := by
  have start : Laid 0 (Reader.ofSource source) none 0 source.toList := laid_code 0 0 _ (no_kind _) (no_kind _)
  have nearly : NearlyLossless source (TokenStream.ofSource source).drain := by
    rw [TokenStream.drain_eq_answers]
    exact (Laid.spread _ start).nearlyLossless (Nat.le_of_lt_succ short)
  exact ⟨nearly, nearly.lossless_iff⟩

theorem great_bound_nearly_lossless :
    let source := "\"$\x7b1..99999999999999999999 § 2\x7d"
    source.utf8ByteSize < UInt32.size ∧
      NearlyLossless source (TokenStream.ofSource source).drain :=
  ⟨by decide +kernel, (drain_lossless_iff _ (by decide +kernel)).1⟩

-- The error at the right bound comes first, and nothing is answered for the left bound.
theorem great_bound_not_lossless :
    ¬ Lossless "1..99999999999999999999" (TokenStream.ofSource "1..99999999999999999999").drain := by
  rintro ⟨order, -⟩
  rw [TokenStream.drain_eq_answers] at order
  have spans : (replyTo (Reader.ofSource "1..99999999999999999999").next).1.fault?.map Located.span =
        some (Span.ofBounds 3 23) ∧
      (replyTo (Reader.ofSource "1..99999999999999999999").next).2.deferred.map Token.span = [Span.ofBounds 1 3] := by
    decide +kernel
  cases failed : (Reader.ofSource "1..99999999999999999999").next with
  | ok found r => rw [failed] at spans; cases spans.1
  | error e r =>
    rw [failed] at spans
    obtain ⟨error, waiting⟩ := spans
    obtain ⟨t, waits, points⟩ := List.map_eq_singleton_iff.1 waiting
    have read : r.next = .ok (some t) { r with deferred := [] } := by
      rw [next, show r.deferred = [t] from waits]
    have answers : (TokenStream.ofSource "1..99999999999999999999").answers =
        .error e :: .ok t :: Reader.answers { r with deferred := [] } := by
      rw [← answers_token read, ← answers_error failed]
      rfl
    rw [answers, List.isChain_cons_cons, spanOf, spanOf, points, Option.some.inj error] at order
    exact absurd order.1 (by decide)

end Frontend
