import Frontend.Token.Reader

-- The tokens of a source behind a buffer.  A token is read only when somebody looks at it, and it can be
-- looked at before it is taken.  From a remembered position on, everything taken can be put back.

namespace Frontend

structure TokenStream where
  reader : Reader
  lookahead : List Token
  -- The tokens taken since the remembered position, the last one first, if a position is remembered.
  journal : Option (List Token)
deriving DecidableEq

namespace TokenStream

abbrev Step (α : Type) := EStateM.Result (Located LexicalError) TokenStream α

def ofSource (source : String) : TokenStream := ⟨Reader.ofSource source, [], none⟩

-- Reads `count` tokens more, or as many as there are.  A failure keeps what was read before it.
def pull : Nat → TokenStream → Step Unit
  | 0, s => .ok () s
  | count + 1, s =>
    match s.reader.next with
    | .error e reader => .error e { s with reader := reader }
    | .ok none reader => .ok () { s with reader := reader }
    | .ok (some token) reader =>
      pull count { s with reader := reader, lookahead := s.lookahead ++ [token] }

-- Reads until `count` tokens can be looked at, or all that are left.  What lies further ahead does not
-- have to be counted for this.
def fill (count : Nat) (s : TokenStream) : Step Unit :=
  s.pull (count - (s.lookahead.take count).length)

theorem fill_eq_pull (count : Nat) (s : TokenStream) :
    s.fill count = s.pull (count - s.lookahead.length) := by
  rw [fill, List.length_take]
  congr 1
  omega

-- How many tokens have to be read for the one `n` places ahead to be among them.  It is a sum of machine
-- words, which starts again with none behind the greatest word; where sums are checked, the program stops.
def needed (n : Nat) : Nat := (n + 1) % UInt64.size

theorem needed_eq {n : Nat} (small : n + 1 < UInt64.size) : needed n = n + 1 := Nat.mod_eq_of_lt small

@[simp] theorem needed_zero : needed 0 = 1 := rfl

def peek (n : Nat) (s : TokenStream) : Step (Option Token) :=
  match s.fill (needed n) with
  | .error e s => .error e s
  | .ok () s => .ok (s.lookahead.take (needed n))[n]? s

-- Takes every token up to the one `n` places ahead, and gives that one.  If fewer are left, all of
-- them are taken and none is given.
def consume (n : Nat) (s : TokenStream) : Step (Option Token) :=
  match s.fill (needed n) with
  | .error e s => .error e s
  | .ok () s =>
    .ok (s.lookahead.take (needed n))[n]?
      { s with
        lookahead := s.lookahead.drop (needed n)
        -- The tokens passed over are remembered too.
        journal := s.journal.map ((s.lookahead.take (needed n)).reverse ++ ·) }

-- Remembers the position.  Only one position can be remembered at a time.
def begin? (s : TokenStream) : Option TokenStream :=
  match s.journal with
  | some _ => none
  | none => some { s with journal := some [] }

def commit (s : TokenStream) : TokenStream := { s with journal := none }

def reset (s : TokenStream) : TokenStream :=
  { s with lookahead := (s.journal.getD []).reverse ++ s.lookahead, journal := none }

-- Leaves a segment of a string whose `}` was just taken.
--
-- What follows the `}` is literal text, so no token behind it may have been read already.
def resumeText (s : TokenStream) : Step Unit :=
  if s.lookahead = [] ∧ s.reader.deferred = [] then
    match s.reader.resumeText with
    | .ok () reader => .ok () { s with reader := reader }
    | .error e reader => .error e { s with reader := reader }
  else .error ⟨Span.empty s.reader.offset, .unbalancedInterpolation⟩ s

end TokenStream

end Frontend
