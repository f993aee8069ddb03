import Frontend.Proofs.NodeCompleteness
import Frontend.Proofs.TokenValues

-- Why the tokens of a source are no program, and at which of them that shows.  A rule is followed along the
-- answers of the whole listing, so that a token it refuses is one of them however deep inside other rules it
-- stands.

namespace Frontend.Grammar

open Surface TokenSource Feed

def nextKind : List Answer → Option TokenKind
  | .ok t :: _ => some t.kind
  | _ => none

-- Members of an enumeration with a comma behind each, and the value of a member behind them that no
-- value is written for.
inductive CountsTo : Option Int64 → List Token → Prop where
  | start : CountsTo (some 0) []
  | member {next given : Option Int64} {id comma : Token} {value : Int64} {ts us : List Token} :
      CountsTo next ts → id.kind = .identifier → SpellsValue given us → given.or next = some value →
      comma.kind = .comma → CountsTo (successor? value) (ts ++ id :: us ++ [comma])

-- The error is at one of these answers: at a token that cannot stand where it stands, at the name of a
-- variable or at the name of a member.
inductive Refuses (answers : List Answer) : Located SyntaxError → Prop where
  | unexpected {t : Token} {kind : TokenKind} : .ok t ∈ answers → t.kind ≠ kind →
      Refuses answers ⟨t.span, .unexpected kind t.kind⟩
  | unexpectedAny {t : Token} {kinds : List TokenKind} : .ok t ∈ answers → t.kind ∉ kinds →
      Refuses answers ⟨t.span, .unexpectedAny kinds t.kind⟩
  | unexpectedInExpr {t : Token} : .ok t ∈ answers → t.kind ∉ primaryKinds →
      Refuses answers ⟨t.span, .unexpectedInExpr t.kind⟩
  -- Neither a type nor a value nor a getter is behind the name.
  | untyped {before : List Token} {keyword id : Token} {ahead : List Answer} :
      answers = (before ++ [keyword, id]).map .ok ++ ahead →
      keyword.kind ∈ [TokenKind.varKeyword, .valKeyword] → id.kind = .identifier →
      (∀ kind ∈ nextKind ahead, kind ∉ [TokenKind.colon, .assign, .getKeyword]) →
      Refuses answers ⟨id.span, .untypedVariable id.text⟩
  -- The member before has the greatest value, and no value is written for this one.
  | overflow {before members : List Token} {keyword name opening id : Token} {ahead : List Answer} :
      answers = (before ++ keyword :: name :: opening :: members ++ [id]).map .ok ++ ahead →
      keyword.kind = .enumKeyword → name.kind = .identifier → opening.kind = .leftBrace →
      CountsTo none members → id.kind = .identifier → nextKind ahead ≠ some .assign →
      Refuses answers ⟨id.span, .enumValueOverflow⟩

-- What is refused is a token, and not that there is none.
theorem Refuses.inside {answers : List Answer} {e : Located SyntaxError} (refuses : Refuses answers e) :
    e.value ≠ .unexpectedEnd := by
  cases refuses <;> nofun

-- Why a rule fails on these answers, which end at `eof`, with `ahead` left of them.
inductive Explains (answers : List Answer) (eof : Span) : ReadError → List Answer → Prop where
  | lexical {e : Located LexicalError} {ahead : List Answer} : Explains answers eof (.lexical e) ahead
  | ended {ahead : List Answer} : ahead = [] → Explains answers eof (.grammatical ⟨eof, .unexpectedEnd⟩) ahead
  | refused {e : Located SyntaxError} {ahead : List Answer} : Refuses answers e →
      Explains answers eof (.grammatical e) ahead

structure Position (answers : List Answer) where
  before : List Token
  ahead : List Answer
  whole : answers = before.map .ok ++ ahead

variable {answers : List Answer}

namespace Position

variable {p q r : Position answers} {t u : Token} {ts us : List Token}

def feed (p : Position answers) : Feed := ⟨p.ahead, none⟩

def next (p : Position answers) : Option TokenKind := nextKind p.ahead

def left (p : Position answers) : Nat := p.ahead.length

-- From `p` to `q` there are these tokens.
def Takes (p : Position answers) (ts : List Token) (q : Position answers) : Prop :=
  q.before = p.before ++ ts

theorem Takes.ahead (takes : p.Takes ts q) : p.ahead = ts.map .ok ++ q.ahead := by
  have whole := p.whole.symm.trans q.whole
  rw [Takes] at takes
  rw [takes, List.map_append, List.append_assoc] at whole
  exact List.append_cancel_left whole

theorem Takes.left_eq (takes : p.Takes ts q) : p.left = ts.length + q.left := by
  rw [left, takes.ahead, List.length_append, List.length_map, left]

theorem Takes.left_le (takes : p.Takes ts q) : q.left ≤ p.left := by
  rw [takes.left_eq]
  exact Nat.le_add_left _ _

theorem Takes.left_lt (takes : p.Takes (t :: ts) q) : q.left < p.left := by
  rw [takes.left_eq, List.length_cons]
  omega

theorem Takes.trans (takes : p.Takes ts q) (later : q.Takes us r) : p.Takes (ts ++ us) r := by
  rw [Takes] at *
  rw [later, takes, List.append_assoc]

theorem Takes.listed (takes : p.Takes ts q) : ∀ t ∈ ts, .ok t ∈ answers := by
  intro t within
  rw [Takes] at takes
  rw [q.whole, takes]
  simp [within]

theorem Takes.next_eq (takes : p.Takes (t :: ts) q) : p.next = some t.kind := by
  rw [next, takes.ahead]
  rfl

theorem Takes.same (one : p.Takes [t] q) (other : p.Takes [u] r) : t = u := by
  have ahead := one.ahead.symm.trans other.ahead
  exact Except.ok.inj (List.cons.inj ahead).1

theorem reach (p : Position answers) (ts : List Token) {rest : List Answer}
    (same : p.ahead = ts.map .ok ++ rest) : ∃ q, q.ahead = rest ∧ p.Takes ts q := by
  refine ⟨⟨p.before ++ ts, rest, p.whole.trans ?_⟩, rfl, rfl⟩
  rw [same, List.map_append, List.append_assoc]

end Position

section Told

variable {α β : Type}

-- What is read is of the kind `D`, which says where it ends too, or the failure is explained.
inductive Told (eof : Span) (D : α → Position answers → Prop) : EStateM.Result ReadError Feed α → Prop where
  | ok {a : α} {q : Position answers} : D a q → Told eof D (.ok a q.feed)
  | failed {e : ReadError} {s : Feed} : Explains answers eof e s.ahead → Told eof D (.error e s)

def Tells (r : Rule Feed α) (p : Position answers) (D : α → Position answers → Prop) : Prop :=
  ∀ eof, Told eof D (r eof p.feed)

variable {r r' : Rule Feed α} {f : α → Rule Feed β} {p : Position answers}
  {D E : α → Position answers → Prop} {F : β → Position answers → Prop}

theorem Tells.pure {a : α} (good : D a p) : Tells (Pure.pure a) p D := fun _ => .ok good

theorem Tells.refuse {span : Span} {error : SyntaxError} (refuses : Refuses answers ⟨span, error⟩) :
    Tells (failAt span error) p D :=
  fun _ => .failed (.refused refuses)

theorem Tells.bind (first : Tells r p D) (then_ : ∀ a q, D a q → Tells (f a) q F) :
    Tells (r >>= f) p F := by
  intro eof
  have first := first eof
  simp only [Bind.bind, ReaderT.bind, EStateM.bind]
  generalize r eof p.feed = x at first
  cases first with
  | ok good => exact then_ _ _ good eof
  | failed explains => exact .failed explains

theorem Tells.imp (tells : Tells r p D) (weaker : ∀ a q, D a q → E a q) : Tells r p E := by
  intro eof
  have tells := tells eof
  generalize r eof p.feed = x at tells
  cases tells with
  | ok good => exact .ok (weaker _ _ good)
  | failed explains => exact .failed explains

theorem Tells.step (same : ∀ eof, r eof p.feed = r' eof p.feed) (tells : Tells r' p D) : Tells r p D := by
  intro eof
  rw [same]
  exact tells eof

end Told

section Tokens

variable {p : Position answers}

-- The token that is there, if the input is not over.
def Shows (p : Position answers) : Option Token → Prop
  | none => p.ahead = []
  | some t => ∃ q, p.Takes [t] q

theorem current_tells : Tells current p fun found q => q = p ∧ Shows p found := by
  intro eof
  obtain ⟨before, _ | ⟨e | t, rest⟩, whole⟩ := p
  · exact .ok (q := ⟨before, [], whole⟩) ⟨rfl, rfl⟩
  · exact .failed .lexical
  · let p : Position answers := ⟨before, .ok t :: rest, whole⟩
    obtain ⟨q, -, takes⟩ := p.reach [t] rfl
    exact .ok (q := p) ⟨rfl, q, takes⟩

theorem Shows.next {found : Option Token} (shows : Shows p found) : found.map Token.kind = p.next := by
  cases found with
  | none =>
    rw [Shows] at shows
    rw [Position.next, shows]
    rfl
  | some t =>
    obtain ⟨q, takes⟩ := shows
    exact takes.next_eq.symm

theorem ended_tells {α : Type} {D : α → Position answers → Prop} (empty : p.ahead = []) :
    Tells endOfInput p D :=
  fun _ => .failed (.ended empty)

theorem advance_tells : Tells advance p fun t q => p.Takes [t] q := by
  intro eof
  obtain ⟨before, _ | ⟨e | t, rest⟩, whole⟩ := p
  · exact ended_tells (p := ⟨before, [], whole⟩) rfl eof
  · exact .failed .lexical
  · let p : Position answers := ⟨before, .ok t :: rest, whole⟩
    obtain ⟨q, rfl, takes⟩ := p.reach [t] rfl
    exact .ok takes

theorem currentKind_tells : Tells currentKind p fun kind q => q = p ∧ kind = p.next :=
  current_tells.bind fun _ _ found => .pure ⟨found.1, found.2.next⟩

theorem isNext_tells (kind : TokenKind) : Tells (isNext kind) p fun found q =>
    q = p ∧ (found = true ↔ p.next = some kind) := by
  refine currentKind_tells.bind fun next q found => .pure ?_
  obtain ⟨rfl, rfl⟩ := found
  exact ⟨rfl, beq_iff_eq⟩

theorem accept_tells (kind : TokenKind) : Tells (accept? kind) p fun found q =>
    match found with
    | some t => t.kind = kind ∧ p.Takes [t] q
    | none => q = p ∧ p.next ≠ some kind := by
  apply (isNext_tells kind).bind
  intro found q given
  obtain ⟨rfl, found_iff⟩ := given
  cases found with
  | true =>
    refine advance_tells.bind fun t r takes => .pure ⟨?_, takes⟩
    exact Option.some.inj (takes.next_eq.symm.trans (found_iff.1 rfl))
  | false => exact .pure ⟨rfl, fun same => Bool.false_ne_true (found_iff.2 same)⟩

theorem expect_tells (kind : TokenKind) :
    Tells (expect kind) p fun t q => t.kind = kind ∧ p.Takes [t] q := by
  apply current_tells.bind
  intro found _ given
  obtain ⟨rfl, shows⟩ := given
  cases found with
  | none => exact ended_tells shows
  | some t =>
    obtain ⟨q, takes⟩ := shows
    dsimp only
    split
    · next same => exact advance_tells.imp fun u r takes' => ⟨takes.same takes' ▸ same, takes'⟩
    · next other => exact .refuse (.unexpected (takes.listed t (List.mem_singleton_self t)) other)

theorem expectAny_tells (kinds : List TokenKind) :
    Tells (expectAny kinds) p fun t q => t.kind ∈ kinds ∧ p.Takes [t] q := by
  apply current_tells.bind
  intro found _ given
  obtain ⟨rfl, shows⟩ := given
  cases found with
  | none => exact ended_tells shows
  | some t =>
    obtain ⟨q, takes⟩ := shows
    dsimp only
    split
    · next within => exact advance_tells.imp fun u r takes' => ⟨takes.same takes' ▸ within, takes'⟩
    · next other => exact .refuse (.unexpectedAny (takes.listed t (List.mem_singleton_self t)) other)

-- What could have stood in the place of the end of the input does not stand there.
theorem expectEnd_tells {kinds : List TokenKind} (other : ∀ kind ∈ p.next, kind ∉ kinds) :
    Tells (expectEnd kinds) p fun _ q => q = p := by
  apply current_tells.bind
  intro found _ given
  obtain ⟨rfl, shows⟩ := given
  cases found with
  | none => exact .pure rfl
  | some t =>
    obtain ⟨q, takes⟩ := shows
    exact .refuse (.unexpectedAny (takes.listed t (List.mem_singleton_self t)) (other _ takes.next_eq))

-- A rule that took a token at least.
abbrev Advances {α : Type} (p : Position answers) (_ : α) (q : Position answers) : Prop := q.left < p.left

theorem identifier_takes : Tells identifier p fun _ q => ∃ id, id.kind = .identifier ∧ p.Takes [id] q :=
  (expect_tells .identifier).bind fun id _ found => .pure ⟨id, found⟩

theorem identifier_tells : Tells identifier p (Advances p) := by
  refine identifier_takes.imp fun _ q found => ?_
  obtain ⟨id, -, takes⟩ := found
  exact takes.left_lt

end Tokens

section Lists

variable {p : Position answers}

theorem generics_tells : Tells (genericsAfterName typeExpr) p fun _ q => q.left ≤ p.left := by
  intro eof
  unfold Position.feed
  rcases generics_outcome eof p.ahead with ⟨args, rest, ⟨ts, -, same⟩, ran⟩ | ⟨e, rest, -, ran⟩ | ran <;>
    rw [ran]
  · obtain ⟨q, rfl, takes⟩ := p.reach ts same
    exact .ok takes.left_le
  · exact .failed .lexical
  · exact .ok (q := p) (Nat.le_refl _)

theorem typeExpr_tells : Tells typeExpr p (Advances p) := by
  refine .step (fun _ => typeExpr_unfold _) (identifier_tells.bind fun _ q named => ?_)
  exact generics_tells.bind fun _ r after => .pure (Nat.lt_of_le_of_lt after named)

variable {α : Type} {item : Rule Feed α}

-- Items of which each takes a token at least.
theorem afterCommas_tells (keeps : ∀ eof, Keeps (viewFaults eof eof id Any) (viewed id Any) item item)
    (each : ∀ q : Position answers, Tells item q (Advances q)) (p : Position answers) :
    Tells (afterCommas item) p fun _ q => q.left ≤ p.left := by
  refine .step (fun eof => afterCommas_unfold _ (keeps eof)) ((accept_tells .comma).bind fun comma q passed => ?_)
  cases comma with
  | none => exact .pure (Nat.le_of_eq (congrArg _ passed.1))
  | some comma =>
    have fewer := passed.2.left_lt
    apply (each q).bind
    intro _ r taken
    refine (afterCommas_tells keeps each r).bind fun _ s more => .pure ?_
    omega
termination_by p.left

theorem itemsUntil_tells (keeps : ∀ eof, Keeps (viewFaults eof eof id Any) (viewed id Any) item item) (close : TokenKind)
    {n : Nat} (each : ∀ q : Position answers, q.left < n → Tells item q (Advances q))
    (p : Position answers) (short : p.left < n) :
    Tells (itemsUntil close item) p fun _ q => q.left ≤ p.left := by
  refine .step (fun eof => itemsUntil_unfold _ (keeps eof) close) ((isNext_tells close).bind fun closes _ same => ?_)
  obtain ⟨rfl, -⟩ := same
  cases closes with
  | true => exact .pure (Nat.le_refl _)
  | false =>
    apply (each _ short).bind
    intro _ q taken
    apply (accept_tells .comma).bind
    intro comma r passed
    cases comma with
    | none =>
      obtain ⟨rfl, -⟩ := passed
      exact .pure (Nat.le_of_lt taken)
    | some comma =>
      have fewer := passed.2.left_lt
      refine (itemsUntil_tells keeps close each r (by omega)).bind fun _ s more => .pure ?_
      omega
termination_by p.left

end Lists

end Frontend.Grammar
