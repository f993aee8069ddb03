import Frontend.Proofs.TokenTexts

-- How far a token reaches.  A token is taken off the front of the characters that are left.  Where it ends, no
-- run of digits goes on.

namespace Frontend

open Reader Scanner Text

variable {r r' : Reader} {s s' : Scanner} {t : Token} {ts : List Token} {kind : TokenKind} {c : Char}
  {cs more text digits rest front : List Char}

-- No run of digits goes on over the place between the two.
def Parted (front rest : List Char) : Prop :=
  (∀ c ∈ front.getLast?, c.isDigit = false) ∨ ∀ c ∈ rest.head?, c.isDigit = false

theorem parted_nil (rest : List Char) : Parted [] rest := .inl nofun

theorem Parted.append (parted : Parted front (more ++ rest)) (parted' : Parted more rest) :
    Parted (front ++ more) rest := by
  cases more with
  | nil => rwa [List.append_nil]
  | cons c more => simpa [Parted, List.getLast?_append] using parted'

theorem parted_of_all (all : ∀ c ∈ front, c.isDigit = false) (rest : List Char) : Parted front rest :=
  .inl fun _ last => all _ (List.mem_of_getLast? last)

def Numeral.behind : Numeral → List Char
  | .integer _ rest => rest
  | .double _ _ rest => rest
  | .range _ rest => rest

theorem ofChars_run (c : Char) (cs : List Char) :
    Numeral.ofChars c cs = .ofRun (c :: cs.takeWhile Char.isDigit) (cs.dropWhile Char.isDigit) := rfl

theorem ofRun_suffix (digits rest : List Char) : (Numeral.ofRun digits rest).behind <:+ rest := by
  unfold Numeral.ofRun
  split
  · exact ⟨['.', '.'], rfl⟩
  · next d rest _ =>
    split
    · exact (List.dropWhile_suffix _).trans ⟨['.', d], rfl⟩
    · exact List.suffix_rfl
  · exact List.suffix_rfl

-- Where a number ends, no digit follows, unless it is the bound of a range.
theorem numeral_stops (c : Char) (cs : List Char) :
    (∃ digits rest, Numeral.ofChars c cs = .range digits rest) ∨
      ∀ x ∈ (Numeral.ofChars c cs).behind.head?, x.isDigit = false := by
  rw [ofChars_run]
  rcases ofRun_cases (c :: cs.takeWhile Char.isDigit) (cs.dropWhile Char.isDigit) with
      ⟨more, same⟩ | ⟨d, more, same, digit⟩ | alone
  · exact .inl ⟨_, more, by rw [same]; rfl⟩
  · rw [same, ofRun_double digit]
    exact .inr (dropWhile_head _ more)
  · rw [alone]
    exact .inr (dropWhile_head _ cs)

-- Behind the characters of a number, its right bound is what still may be read along with it.
theorem numeralStep_suffix {numeral : Numeral} (read : numeralStep r numeral = .ok (some t) r') :
    r'.rest <:+ numeral.behind := by
  cases numeral with
  | range digits rest =>
    have outcome := r.readRange_outcome digits rest
    rw [show r.readRange digits rest = .ok (some t) r' from read] at outcome
    cases outcome with
    | unbounded => exact List.suffix_rfl
    | bounded => exact List.dropWhile_suffix _
  | double whole fraction rest =>
    cases read
    exact List.suffix_rfl
  | integer digits rest =>
    rw [numeralStep] at read
    split at read <;> cases read
    exact List.suffix_rfl

-- With the token that comes next, something is taken off the characters.
def Passes (cs : List Char) : Step (Option Token) → Prop
  | .ok (some _) r => ∃ front, cs = front ++ r.rest ∧ front ≠ [] ∧ Parted front r.rest
  | _ => True

theorem symbol_noDigit (found : symbol? c cs = some (kind, text, rest)) :
    text ≠ [] ∧ ∀ x ∈ text, x.isDigit = false := by
  have noDigit {x : Char} {kind : TokenKind} (spelled : TokenKind.ofSymbol? x = some kind) : x.isDigit = false := by
    rw [Bool.eq_false_iff]
    intro digit
    rw [(digit_apart digit).2.2.2] at spelled
    cases spelled
  rcases symbol_cases found with ⟨d, pair, rfl, -⟩ | ⟨-, spelled, rfl, -⟩
  · have apart : c.isDigit = false ∧ d.isDigit = false := by
      unfold TokenKind.ofPair? at pair
      split at pair <;> first | exact ⟨rfl, rfl⟩ | cases pair
    exact ⟨List.cons_ne_nil _ _, List.forall_mem_cons.2 ⟨apart.1, List.forall_mem_singleton.2 apart.2⟩⟩
  · exact ⟨List.cons_ne_nil _ _, List.forall_mem_singleton.2 (noDigit spelled)⟩

theorem readRange_passes (any : digits ≠ []) (rest : List Char) :
    Passes (digits ++ '.' :: '.' :: rest) (r.readRange digits rest) := by
  have whole (front : List Char) : digits ++ '.' :: '.' :: front ≠ [] := by simp [any]
  have outcome := r.readRange_outcome digits rest
  generalize r.readRange digits rest = step at outcome ⊢
  cases outcome with
  | leftGreat | rightGreat => trivial
  | unbounded => exact ⟨digits ++ ['.', '.'], by simp [moveTo], whole [], .inl (by simp)⟩
  | bounded =>
    refine ⟨digits ++ '.' :: '.' :: rest.takeWhile Char.isDigit, ?_, whole _, .inr (dropWhile_head _ rest)⟩
    simp only [moveTo, List.append_assoc, List.cons_append, List.takeWhile_append_dropWhile]

theorem readToken_passes (c : Char) (cs : List Char) : Passes (c :: cs) (r.readToken c cs) := by
  have chars := numeral_chars c cs
  have stops := numeral_stops c cs
  have outcome := r.readToken_outcome c cs
  generalize r.readToken c cs = step at outcome ⊢
  cases outcome with
  | symbol found =>
    obtain ⟨any, all⟩ := symbol_noDigit found
    exact ⟨_, symbol_chars found, any, parted_of_all all _⟩
  | quote _ quote =>
    subst quote
    exact ⟨['"'], rfl, List.cons_ne_nil _ _, parted_of_all (List.forall_mem_singleton.2 rfl) _⟩
  | word _ _ _ written =>
    subst written
    refine ⟨c :: cs.takeWhile isAlphanumeric, ?_, List.cons_ne_nil _ _, .inr fun x first => ?_⟩
    · exact congrArg (c :: ·) List.takeWhile_append_dropWhile.symm
    · exact noDigit_of_noWord (dropWhile_head _ cs x first)
  | range digit found read =>
    have written := numeral_written digit cs
    rw [found] at written chars
    rw [← chars, ← read]
    exact readRange_passes written.any _
  | double digit found =>
    rw [found] at chars stops
    exact ⟨_, chars.symm, by simp, .inr (stops.resolve_left (by simp))⟩
  | integer digit found =>
    have written := numeral_written digit cs
    rw [found] at written chars stops
    exact ⟨_, chars.symm, written.any, .inr (stops.resolve_left (by simp))⟩
  | great | unexpected => trivial

theorem readText_passes {outer : List Mode} (read : r.readText outer = .ok (some t) r') :
    ∃ front, r.rest = front ++ r'.rest ∧ Parted front r'.rest := by
  have chars := splitText_chars r.rest
  have outcome := r.readText_outcome outer
  rw [read] at outcome
  cases outcome with
  | @unclosed text found =>
    rw [found] at chars
    exact ⟨text, by rw [chars, List.append_nil], .inr nofun⟩
  | @closed text _ found =>
    rw [found] at chars
    exact ⟨text ++ ['"'], by simpa using chars, .inl (by simp)⟩
  | @segment text _ found =>
    rw [found] at chars
    exact ⟨text ++ ['$', '{'], by simpa using chars, .inl (by simp)⟩

theorem blanks_parted {blanks : List Char} (blank : ∀ c ∈ blanks, isBlank c = true) (rest : List Char) :
    Parted blanks rest :=
  parted_of_all (fun c among => (blank_stops (blank c among)).digit) rest

theorem next_passes (read : r.next = .ok (some t) r') : ∃ front, r.rest = front ++ r'.rest ∧ Parted front r'.rest := by
  have outcome := r.next_outcome
  rw [read] at outcome
  cases outcome with
  | waiting => exact ⟨[], rfl, parted_nil _⟩
  | text _ _ read => exact readText_passes read
  | @token c cs _ _ _ front read =>
    have passes := readToken_passes (r := r.skipBlanks) c cs
    rw [read] at passes
    obtain ⟨more, whole, -, parted⟩ := passes
    have blanks := List.takeWhile_append_dropWhile (p := isBlank) (l := r.rest)
    rw [front, whole, ← List.append_assoc] at blanks
    exact ⟨_, blanks.symm, (blanks_parted (List.all_eq_true.1 List.all_takeWhile) _).append parted⟩

theorem Scanner.Runs.passes (runs : Runs s ts s') :
    ∃ front, s.reader.rest = front ++ s'.reader.rest ∧ Parted front s'.reader.rest := by
  induction runs with
  | refl => exact ⟨[], rfl, parted_nil _⟩
  | @token s s' r t ts read _ ih =>
    obtain ⟨front, whole, parted⟩ := next_passes read
    obtain ⟨more, rest, parted'⟩ := ih
    rw [behind_rest] at rest
    rw [rest, ← List.append_assoc] at whole
    rw [rest] at parted
    exact ⟨front ++ more, whole, parted.append parted'⟩

end Frontend
