import Frontend.Proofs.ListingAgreement

-- The listing of a source without a buffer.  Whether a string ends behind a text has not to be looked for,
-- because the reader finds that end along with the text.  So a listing depends on nothing but the reader and
-- the braces that are open in its segments, and what is listed up to some place can be put together with what
-- is listed from there.

namespace Frontend

open Reader TokenSource TokenStep

-- A reader, and how many braces are open in each of the segments that it stands in.
structure Scanner where
  reader : Reader
  segments : List Nat

namespace Scanner

def ofSource (source : String) : Scanner := ⟨Reader.ofSource source, []⟩

-- Behind the token `t`, which left the reader at `r`.
def behind (segments : List Nat) (t : Token) (r : Reader) : Scanner :=
  match t.kind, segments with
  | .stringText, _ => ⟨r, if r.deferred = [] then 0 :: segments else segments⟩
  | .leftBrace, depth :: outer => ⟨r, (depth + 1) :: outer⟩
  -- The text around the segment goes on.
  | .rightBrace, 0 :: outer => ⟨{ r with modes := r.modes.tail }, outer⟩
  | .rightBrace, (depth + 1) :: outer => ⟨r, depth :: outer⟩
  | _, _ => ⟨r, segments⟩

-- All that is listed from here: tokens up to the end of the input or up to an error.
inductive Lists : Scanner → List Answer → Prop where
  | ended {s : Scanner} {r : Reader} : s.reader.next = .ok none r → Lists s []
  | fault {s : Scanner} {r : Reader} {e : Located LexicalError} : s.reader.next = .error e r →
      Lists s [.error e]
  | token {s : Scanner} {r : Reader} {t : Token} {rest : List Answer} :
      s.reader.next = .ok (some t) r → Lists (behind s.segments t r) rest → Lists s (.ok t :: rest)

-- The tokens between two places.
inductive Runs : Scanner → List Token → Scanner → Prop where
  | refl {s : Scanner} : Runs s [] s
  | token {s s' : Scanner} {r : Reader} {t : Token} {ts : List Token} :
      s.reader.next = .ok (some t) r → Runs (behind s.segments t r) ts s' → Runs s (t :: ts) s'

variable {s s' : Scanner} {r : Reader} {t : Token} {ts us : List Token} {answers more : List Answer}
  {e : Located LexicalError} {segments : List Nat}

theorem Lists.unique (one : Lists s answers) (other : Lists s more) : answers = more := by
  induction one generalizing more with
  | ended read =>
    cases other with
    | ended => rfl
    | fault read' | token read' _ => cases read.symm.trans read'
  | fault read =>
    cases other with
    | fault read' => cases read.symm.trans read'; rfl
    | ended read' | token read' _ => cases read.symm.trans read'
  | token read _ ih =>
    cases other with
    | token read' others => cases read.symm.trans read'; rw [ih others]
    | ended read' | fault read' => cases read.symm.trans read'

theorem Runs.lists (runs : Runs s ts s') (lists : Lists s' more) :
    Lists s (ts.map .ok ++ more) := by
  induction runs with
  | refl => exact lists
  | token read _ ih => exact .token read (ih lists)

theorem Lists.runs (lists : Lists s (ts.map .ok ++ more)) : ∃ s', Runs s ts s' ∧ Lists s' more := by
  induction ts generalizing s with
  | nil => exact ⟨s, .refl, lists⟩
  | cons t ts ih =>
    cases lists with
    | token read others =>
      obtain ⟨s', runs, rest⟩ := ih others
      exact ⟨s', .token read runs, rest⟩

theorem Runs.rest (runs : Runs s ts s') (lists : Lists s answers) :
    ∃ more, answers = ts.map .ok ++ more ∧ Lists s' more := by
  induction runs generalizing answers with
  | refl => exact ⟨answers, rfl, lists⟩
  | token read _ ih =>
    cases lists with
    | token read' others =>
      cases read.symm.trans read'
      obtain ⟨more, rfl, lists⟩ := ih others
      exact ⟨more, rfl, lists⟩
    | ended read' | fault read' => cases read.symm.trans read'

theorem Lists.congr (lists : Lists s answers) (same : s'.reader.next = s.reader.next)
    (inner : s'.segments = s.segments) : Lists s' answers := by
  cases lists with
  | ended read => exact .ended (same.trans read)
  | fault read => exact .fault (same.trans read)
  | token read others => exact .token (same.trans read) (inner ▸ others)

theorem Runs.lists_tokens (runs : Runs s ts s') (lists : Lists s' (us.map .ok)) :
    Lists s ((ts ++ us).map .ok) := by
  rw [List.map_append]
  exact runs.lists lists

theorem Lists.head (lists : Lists s (ts.map .ok)) : ∃ r, s.reader.next = .ok ts.head? r := by
  cases ts with
  | nil => cases lists with | ended read => exact ⟨_, read⟩
  | cons t ts => cases lists with | token read _ => exact ⟨_, read⟩

theorem behind_rest (segments : List Nat) (t : Token) (r : Reader) :
    (behind segments t r).reader.rest = r.rest := by
  unfold behind
  split <;> rfl

theorem behind_deferred : (behind segments t r).reader.deferred = r.deferred := by
  unfold behind
  split <;> rfl

theorem behind_reader (open_ : t.kind ≠ .rightBrace) (segments : List Nat) (r : Reader) :
    (behind segments t r).reader = r := by
  unfold behind
  split <;> first | rfl | contradiction

theorem behind_nil (noText : t.kind ≠ .stringText) (r : Reader) : behind [] t r = ⟨r, []⟩ := by
  unfold behind
  split <;> first | rfl | contradiction

-- Behind a text a segment begins, unless the end of its string waits.
theorem behind_text (isText : t.kind = .stringText) (segments : List Nat) (r : Reader) :
    behind segments t r = ⟨r, if r.deferred = [] then 0 :: segments else segments⟩ := by
  unfold behind
  rw [isText]

theorem behind_ordinary (ordinary : Grammar.Ordinary t.kind) (segments : List Nat) (r : Reader) :
    behind segments t r = ⟨r, segments⟩ := by
  obtain ⟨noText, noOpening, noClosing⟩ := ordinary
  unfold behind
  split <;> first | rfl | contradiction

-- The reader stands in as many segments as there are braces counted for.
def Placed (s : Scanner) : Prop :=
  s.reader.InCode s.segments.length ∨ s.reader.BeforeText s.segments.length ∨
    s.reader.AtEnd s.segments.length

theorem placed_start (source : String) : Placed (ofSource source) := .inl ⟨rfl, nofun⟩

theorem Placed.next (placed : Placed s) (read : s.reader.next = .ok (some t) r) :
    Behind s.segments.length t.kind r := by
  rcases placed with code | before | ends
  · have step := next_inCode code
    rw [read] at step
    exact step.2
  · obtain ⟨u, r', read', text, behind⟩ := next_text before
    cases read.symm.trans read'
    rw [text]
    exact behind
  · obtain ⟨u, r', read', ending, plain⟩ := next_atEnd ends
    cases read.symm.trans read'
    rw [ending]
    exact plain.inCode

theorem Placed.behind (placed : Placed s) (read : s.reader.next = .ok (some t) r) :
    Placed (behind s.segments t r) := by
  have stands := placed.next read
  obtain ⟨reader, segments⟩ := s
  obtain ⟨kind, text, value, span⟩ := t
  by_cases literal : kind = .stringText
  · subst literal
    rcases stands with ends | plain
    · obtain ⟨u, queued, kind⟩ := ends.queued
      have inside : Scanner.behind segments ⟨.stringText, text, value, span⟩ r = ⟨r, segments⟩ := by
        simp [Scanner.behind, queued]
      rw [inside]
      exact .inr (.inr ends)
    · have inside : Scanner.behind segments ⟨.stringText, text, value, span⟩ r = ⟨r, 0 :: segments⟩ := by
        simp [Scanner.behind, plain.idle]
      rw [inside]
      exact .inl plain.inCode
  · rcases segments with _ | ⟨_ | depth, outer⟩ <;> cases kind <;> first
      | contradiction
      | exact .inl stands
      | exact .inl (Plain.inCode stands)
      | exact .inr (.inl stands)
      | (have plain : r.Plain (outer.length + 1) := stands
         exact .inr (.inl ⟨congrArg List.tail plain.modes, plain.idle⟩))

theorem Runs.placed (runs : Runs s ts s') (placed : Placed s) : Placed s' := by
  induction runs with
  | refl => exact placed
  | token read _ ih => exact ih (placed.behind read)

-- A stream with an empty buffer and no position to go back to.
def fresh (r : Reader) : TokenStream := ⟨r, [], none⟩

theorem consume_fresh (r : Reader) : (fresh r).consume 0 =
    match r.next with
    | .error e r => .error e (fresh r)
    | .ok t r => .ok t (fresh r) := by
  rw [fresh, TokenStream.consume_nil rfl]
  rcases r.next with ⟨_ | t, r⟩ | ⟨e, r⟩ <;> rfl

theorem next_of_consume {a : Option Token} {s : TokenStream} (took : (fresh r).consume 0 = .ok a s) :
    ∃ r', r.next = .ok a r' ∧ s = fresh r' := by
  rw [consume_fresh] at took
  split at took <;> cases took
  exact ⟨_, by assumption, rfl⟩

theorem next_of_fault {s : TokenStream} (failed : (fresh r).consume 0 = .error e s) :
    ∃ r', r.next = .error e r' := by
  rw [consume_fresh] at failed
  split at failed <;> cases failed
  exact ⟨_, by assumption⟩

-- What stands behind a text is the end of its string just where the reader has found that end.
theorem ends_iff_queued {a : Option Token} {r' : Reader} (stands : Behind segments.length .stringText r)
    (read : r.next = .ok a r') : a.map Token.kind = some .stringEnd ↔ r.deferred ≠ [] := by
  rcases stands with ends | plain
  · obtain ⟨u, r'', read', ending, -⟩ := next_atEnd ends
    obtain ⟨v, queued, -⟩ := ends.queued
    cases read.symm.trans read'
    simp [ending, queued]
  · have step := next_plain plain
    rw [read] at step
    cases a with
    | none => simp [plain.idle]
    | some u => simp [plain.idle, step.2.1]

theorem track_fresh (stands : Behind segments.length t.kind r) :
    match track segments t (fresh r) with
    | .ok inner s => inner = (behind segments t r).segments ∧
        s.consume 0 = (fresh (behind segments t r).reader).consume 0
    | .error e _ => (behind segments t r).reader = r ∧ ∃ r', r.next = .error e r' := by
  obtain ⟨kind, text, value, span⟩ := t
  by_cases literal : kind = .stringText
  · subst literal
    rw [track_text rfl]
    unfold afterText
    rcases (fresh r).peek_front with ⟨e, s', looked, failed⟩ | ⟨a, s', looked, again, -, s'', took⟩
    · simp only [TokenSource.look, looked]
      exact ⟨rfl, next_of_fault failed⟩
    · obtain ⟨r', read, -⟩ := next_of_consume took
      have ends := ends_iff_queued stands read
      simp only [TokenSource.look, looked, behind]
      by_cases queued : r.deferred = []
      · rw [if_neg (mt ends.1 (not_not_intro queued)), if_pos queued]
        exact ⟨rfl, again⟩
      · rw [if_pos (ends.2 queued), if_neg queued]
        exact ⟨rfl, again⟩
  · rcases segments with _ | ⟨_ | depth, outer⟩
    · cases kind <;> first | contradiction | exact ⟨rfl, rfl⟩
    · by_cases closes : kind = .rightBrace
      · subst closes
        have plain : r.Plain (outer.length + 1) := stands
        have left : r.resumeText = .ok () { r with modes := r.modes.tail } := by
          unfold Reader.resumeText
          simp only [plain.modes, modesOf, List.tail_cons]
        have resumed : TokenSource.resumeText (fresh r) = .ok () (fresh { r with modes := r.modes.tail }) := by
          simp only [TokenSource.resumeText, TokenStream.resumeText, fresh, plain.idle, and_self, if_true,
            left]
        rw [track_close rfl resumed]
        exact ⟨rfl, rfl⟩
      · cases kind <;> first | contradiction | exact ⟨rfl, rfl⟩
    · cases kind <;> first | contradiction | exact ⟨rfl, rfl⟩

-- A listing with a buffer is one without.
theorem lists_of_listed {stream : TokenStream} (listed : Listed segments stream answers) {r : Reader}
    (same : stream.consume 0 = (fresh r).consume 0) (placed : Placed ⟨r, segments⟩) :
    Lists ⟨r, segments⟩ answers := by
  induction listed generalizing r with
  | ended took =>
    obtain ⟨r', read, -⟩ := next_of_consume (same.symm.trans took)
    exact .ended read
  | fault failed =>
    obtain ⟨r', read⟩ := next_of_fault (same.symm.trans failed)
    exact .fault read
  | lost took tracked =>
    obtain ⟨r', read, rfl⟩ := next_of_consume (same.symm.trans took)
    have found := track_fresh (placed.next read)
    rw [tracked] at found
    obtain ⟨still, r'', failed⟩ := found
    refine .token read (.fault (r := r'') ?_)
    rw [still]
    exact failed
  | token took tracked _ ih =>
    obtain ⟨r', read, rfl⟩ := next_of_consume (same.symm.trans took)
    have found := track_fresh (placed.next read)
    rw [tracked] at found
    obtain ⟨rfl, again⟩ := found
    exact .token read (ih again (placed.behind read))

theorem lists_source (source : String) :
    match tokensOf source with
    | .ok tokens => Lists (ofSource source) (tokens.map .ok)
    | .error e => ∃ tokens : List Token, Lists (ofSource source) (tokens.map .ok ++ [.error e]) := by
  have listed := listed_toList [] (TokenStream.ofSource source)
  unfold tokensOf
  revert listed
  rcases toList [] (TokenStream.ofSource source) with ⟨tokens, s⟩ | ⟨e, s⟩
  · exact fun listed => lists_of_listed listed rfl (placed_start source)
  · intro found
    obtain ⟨tokens, listed⟩ := found
    exact ⟨tokens, lists_of_listed listed rfl (placed_start source)⟩

-- What is listed without a buffer is listed with one.
theorem Lists.listed {source : String} (lists : Lists (ofSource source) answers) :
    Listed [] (TokenStream.ofSource source) answers := by
  have listed := listed_toList [] (TokenStream.ofSource source)
  have same {more : List Answer} (listed : Listed [] (TokenStream.ofSource source) more) : answers = more :=
    lists.unique (lists_of_listed listed rfl (placed_start source))
  revert listed
  rcases toList [] (TokenStream.ofSource source) with ⟨tokens, s⟩ | ⟨e, s⟩
  · exact fun listed => same listed ▸ listed
  · intro found
    obtain ⟨tokens, listed⟩ := found
    exact same listed ▸ listed

end Scanner

open Scanner

theorem ok_of_toOption {ε α : Type} {x : Except ε α} {a : α} (found : x.toOption = some a) : x = .ok a := by
  cases x <;> cases found
  rfl

theorem ok_injective {ts us : List Token} (same : ts.map Except.ok = (us.map .ok : List Answer)) : ts = us :=
  (List.map_inj_right fun _ _ => Except.ok.inj).1 same

theorem error_not_listed {ts us : List Token} {e : Located LexicalError} :
    ts.map Except.ok ≠ (us.map .ok ++ [.error e] : List Answer) := by
  intro same
  have listed : (.error e : Answer) ∈ ts.map .ok := by rw [same]; simp
  obtain ⟨_, -, equal⟩ := List.mem_map.1 listed
  cases equal

theorem tokensOf_ok {source : String} {ts : List Token} :
    tokensOf source = .ok ts ↔ Lists (ofSource source) (ts.map .ok) := by
  have listing := lists_source source
  constructor
  · intro listed
    rw [listed] at listing
    exact listing
  · intro lists
    split at listing
    · next found => rw [found, ok_injective (lists.unique listing)]
    · obtain ⟨us, listing⟩ := listing
      exact absurd (lists.unique listing) error_not_listed

theorem tokensOf_error {source : String} {e : Located LexicalError} :
    tokensOf source = .error e ↔
      ∃ ts : List Token, Lists (ofSource source) (ts.map .ok ++ [.error e]) := by
  have listing := lists_source source
  constructor
  · intro failed
    rw [failed] at listing
    exact listing
  · intro found
    obtain ⟨ts, lists⟩ := found
    split at listing
    · exact absurd (listing.unique lists) error_not_listed
    · next failed =>
      obtain ⟨us, listing⟩ := listing
      have same := (List.append_inj' (lists.unique listing) rfl).2
      cases same
      exact failed

theorem exists_lists (source : String) : ∃ answers, Lists (ofSource source) answers := by
  cases listed : tokensOf source with
  | ok ts => exact ⟨_, tokensOf_ok.1 listed⟩
  | error e =>
    obtain ⟨ts, lists⟩ := tokensOf_error.1 listed
    exact ⟨_, lists⟩

end Frontend
