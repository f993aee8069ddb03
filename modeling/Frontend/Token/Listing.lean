import Frontend.Token.Progress

-- All the tokens of a source in order.  Only here the braces of segments have to be counted: the `}` that
-- ends a segment is the one that matches its `${`.

namespace Frontend

namespace TokenSource

open TokenStep

variable {σ : Type} [TokenSource σ]

-- The depth of braces in each open segment, after the text of a string was taken.  Text that no
-- end of the string follows is followed by a segment.
def afterText (segments : List Nat) (s : σ) : TokenStep σ (List Nat) :=
  match look s with
  | .error e s => .error e s
  | .ok following s =>
    if following.map Token.kind = some .stringEnd then .ok segments s else .ok (0 :: segments) s

def track (segments : List Nat) (token : Token) (s : σ) : TokenStep σ (List Nat) :=
  match token.kind, segments with
  | .stringText, _ => afterText segments s
  | .leftBrace, depth :: outer => .ok ((depth + 1) :: outer) s
  -- Every brace opened in the segment is closed again, so this one ends the segment.
  | .rightBrace, 0 :: outer =>
    match resumeText s with
    | .ok () s => .ok outer s
    | .error e s => .error e s
  | .rightBrace, (depth + 1) :: outer => .ok (depth :: outer) s
  | _, _ => .ok segments s

theorem weight_track_le (segments : List Nat) (token : Token) (s : σ) :
    weight (after (track segments token s)) ≤ weight s := by
  have looked := weight_look_le s
  have resumed := weight_resumeText_le s
  unfold track
  split
  · unfold afterText
    split <;> rename_i same <;> simp only [same, after] at looked
    · exact looked
    · split <;> exact looked
  · exact Nat.le_refl _
  · split <;> rename_i same <;> simpa only [same, after] using resumed
  · exact Nat.le_refl _
  · exact Nat.le_refl _

-- The tokens that are left, where `segments` are the depths of braces in the open segments.
def toList (segments : List Nat) (s : σ) : TokenStep σ (List Token) :=
  match _taken : take s with
  | .error e s₁ => .error e s₁
  | .ok none s₁ => .ok [] s₁
  | .ok (some token) s₁ =>
    match _tracked : track segments token s₁ with
    | .error e s₂ => .error e s₂
    | .ok inner s₂ =>
      match toList inner s₂ with
      | .error e s₃ => .error e s₃
      | .ok tokens s₃ => .ok (token :: tokens) s₃
termination_by weight s
decreasing_by
  have kept := weight_track_le segments token s₁
  rw [_tracked] at kept
  exact Nat.lt_of_le_of_lt kept (weight_take_lt _taken)

end TokenSource

def tokensOf (source : String) : Except (Located LexicalError) (List Token) :=
  match TokenSource.toList [] (TokenStream.ofSource source) with
  | .error e _ => .error e
  | .ok tokens _ => .ok tokens

end Frontend
