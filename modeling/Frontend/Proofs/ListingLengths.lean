import Frontend.Proofs.Nesting

-- How many tokens a source can have, and where texts stand among them.  A token can be empty: the text of an
-- empty string is, and so is the end of a string that is never closed.  Therefore the characters alone do not
-- bound the tokens.  The bound counts two for a character, what waits in the queue, and what a text at the
-- front still owes.

namespace Frontend

open Grammar Reader Scanner Text TokenSource

namespace Reader

-- Tokens that can come without a character of their own.  In front of a text there are two of them, that text and
-- the end of its string.  In code there can be one: a quote pays for itself and one of these two only.
def owed (r : Reader) : Nat := if r.modes.head? = some .text then 2 else min 1 r.rest.length

-- At least as many as the tokens that are still to come.
def left (r : Reader) : Nat := r.deferred.length + 2 * r.rest.length + r.owed

-- From code, the characters that were passed pay for the token, for what waits, and for whatever may be owed then.
def Pays (count : Nat) : Step (Option Token) → Prop
  | .ok (some _) r => r.deferred.length + 2 * r.rest.length + 2 ≤ 2 * count
  | _ => True

variable {r r' : Reader} {t : Token} {depth : Nat}

theorem owed_le (r : Reader) : r.owed ≤ 2 := by
  unfold owed
  split <;> omega

theorem owed_code (modes : r.modes = modesOf depth) : r.owed = min 1 r.rest.length := by
  cases depth <;> simp [owed, modes, modesOf]

theorem readRange_pays {digits rest : List Char} {count : Nat} (room : rest.length + 3 ≤ count) :
    Pays count (r.readRange digits rest) := by
  have outcome := r.readRange_outcome digits rest
  generalize r.readRange digits rest = step at outcome ⊢
  cases outcome with
  | leftGreat | rightGreat => trivial
  | unbounded =>
    simp only [Pays, moveTo, List.length_cons, List.length_nil]
    omega
  | bounded _ bounded =>
    have split := congrArg List.length (List.takeWhile_append_dropWhile (p := Char.isDigit) (l := rest))
    have digits := List.length_pos_iff.2 bounded
    rw [List.length_append] at split
    simp only [Pays, moveTo, List.length_cons, List.length_nil]
    omega

theorem readToken_pays (idle : r.deferred = []) (c : Char) (cs : List Char) :
    Pays (cs.length + 1) (r.readToken c cs) := by
  have short {count : Nat} {rest : List Char} {token : Token} {modes : List Mode} (le : rest.length ≤ cs.length) :
      Pays (cs.length + 1) (.ok (some token) { r.moveTo count rest with modes := modes }) := by
    simp only [Pays, moveTo, idle, List.length_nil]
    omega
  have number := Numeral.ofChars_length c cs
  have outcome := r.readToken_outcome c cs
  generalize r.readToken c cs = step at outcome ⊢
  cases outcome with
  | symbol found => exact short (symbol?_length found)
  | quote => exact short (Nat.le_refl _)
  | word => exact short (length_dropWhile_le _ _)
  | range _ found read =>
    rw [found] at number
    exact read ▸ readRange_pays (Nat.succ_le_succ number)
  | double _ found | integer _ found =>
    rw [found] at number
    exact short number
  | great | unexpected => trivial

theorem next_pays (plain : r.Plain depth) : Pays r.rest.length r.next := by
  have skipped := length_dropWhile_le isBlank r.rest
  have outcome := r.next_outcome
  generalize r.next = step at outcome ⊢
  cases outcome with
  | waiting waits => cases plain.idle.symm.trans waits
  | text _ inside => exact absurd (plain.modes.symm.trans inside) (noText_modesOf _ _)
  | ended => trivial
  | @token c cs _ _ _ front read =>
    have pays := readToken_pays (r := r.skipBlanks) plain.idle c cs
    rw [read] at pays
    rw [front, List.length_cons] at skipped
    rcases step with ⟨_ | t, r'⟩ | ⟨e, r'⟩
    · trivial
    · exact Nat.le_trans pays (Nat.mul_le_mul_left 2 skipped)
    · trivial

-- A text with nothing behind it leaves the end of its string in the queue, and nothing else.
theorem readText_left (idle : r.deferred = []) (modes : r.modes = .text :: modesOf depth)
    (read : r.readText (modesOf depth) = .ok (some t) r') : r'.left < r.left := by
  have short := splitText_length r.rest
  have before : r.left = 2 * r.rest.length + 2 := by simp [left, owed, idle, modes]
  have paid {d : Nat} (after : r'.modes = modesOf d)
      (fewer : r'.deferred.length + 2 * r'.rest.length + min 1 r'.rest.length < 2 * r.rest.length + 2) :
      r'.left < r.left := by
    rwa [before, left, owed_code after]
  have outcome := r.readText_outcome (modesOf depth)
  rw [read] at outcome
  cases outcome with
  | unclosed found | closed found =>
    refine paid (d := depth) rfl ?_
    simp only [found, List.length_cons, List.length_nil] at short ⊢
    omega
  | segment found =>
    refine paid (d := depth + 1) rfl ?_
    simp only [found, List.length_nil] at short ⊢
    omega

end Reader

namespace Scanner

variable {s s' : Scanner} {r : Reader} {t : Token} {ts us : List Token}

theorem behind_left (segments : List Nat) (t : Token) (r : Reader) :
    (behind segments t r).reader.left ≤ r.deferred.length + 2 * r.rest.length + 2 := by
  have owed := owed_le (behind segments t r).reader
  rw [left, behind_deferred, behind_rest]
  omega

-- Every token is paid for.
theorem History.left_next (history : History s ts) (read : s.reader.next = .ok (some t) r) :
    (behind s.segments t r).reader.left < s.reader.left := by
  have queued {u : Token} {queue : List Token} (waits : s.reader.deferred = u :: queue) :
      r.left < s.reader.left := by
    obtain ⟨-, rfl⟩ := next_queued waits read
    simp only [left, owed, waits, List.length_cons]
    omega
  cases history with
  | @code r₀ segments _ modes waiting _ =>
    cases waits : r₀.deferred with
    | nil =>
      have pays := next_pays ⟨modes, waits⟩
      have after := behind_left segments t r
      have before : r₀.left = 2 * r₀.rest.length + min 1 r₀.rest.length := by
        rw [Reader.left, owed_code modes, waits, List.length_nil, Nat.zero_add]
      rw [read] at pays
      simp only [Pays] at pays
      simp only [before]
      omega
    | cons u queue =>
      obtain ⟨rfl, -⟩ := next_queued waits read
      have inert := (InRange.inert (waiting u (by rw [waits]; exact List.mem_cons_self))).2
      rw [behind_reader inert.2.2.2]
      exact queued waits
  | text before _ =>
    obtain ⟨u, r', read', isText, -⟩ := next_text before
    cases read.symm.trans read'
    rw [behind_reader (by rw [isText]; decide)]
    rw [next_inText before.idle before.modes] at read
    exact readText_left before.idle before.modes read
  | ending ends _ _ _ =>
    obtain ⟨rfl, -⟩ := next_queued rfl read
    rw [behind_reader (by rw [ends]; decide)]
    exact queued rfl

theorem Runs.left (runs : Runs s us s') : ∀ {ts}, History s ts → us.length + s'.reader.left ≤ s.reader.left := by
  induction runs with
  | refl =>
    intro ts _
    exact Nat.le_of_eq (Nat.zero_add _)
  | token read _ ih =>
    intro ts history
    have paid := history.left_next read
    have later := ih (history.next read)
    rw [List.length_cons]
    omega

end Scanner

variable {segments : List Nat} {before after : List Token} {text : Token} {answers : List Answer}

theorem Scanner.Lists.inString {source : String}
    (lists : Lists (ofSource source) ((before ++ text :: after).map .ok ++ answers)) (isText : text.kind = .stringText) :
    ∃ segments, InString segments before := by
  rw [List.map_append, List.append_assoc] at lists
  obtain ⟨s, runs, lists⟩ := lists.runs
  cases lists with
  | token read _ => exact ⟨_, (runs.history (history_start source)).text_next read isText⟩

-- The bound is reached: one quote starts a string, which has a text and an end without any characters.
example : (tokensOf "\"").toOption.map List.length = some (2 * "\"".utf8ByteSize + 1) := by decide +kernel

end Frontend
