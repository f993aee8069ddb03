import Frontend.Proofs.Answers
import Frontend.Token.Listing

-- A stream with a record of what a rule does to it: the tokens it takes for good, and the states in which
-- it leaves segments.

namespace Frontend

open TokenSource TokenStep Grammar

structure Observed where
  stream : TokenStream
  -- The tokens that were taken and not put back.
  taken : List Token
  -- The streams whose segments were left, as they were then, the last one first.
  left : List TokenStream

namespace Observed

def ofSource (source : String) : Observed := ⟨TokenStream.ofSource source, [], []⟩

def look (o : Observed) : TokenStep Observed (Option Token) :=
  seen (fun s => { o with stream := s }) (o.stream.peek 0)

def take (o : Observed) : TokenStep Observed (Option Token) :=
  match o.stream.consume 0 with
  | .ok token s => .ok token { o with stream := s, taken := o.taken ++ token.toList }
  | .error e s => .error e { o with stream := s }

def begin? (o : Observed) : Option Observed :=
  o.stream.begin?.map fun s => { o with stream := s }

def commit (o : Observed) : Observed := { o with stream := o.stream.commit }

-- What the journal holds is put back, so that it counts as taken no more.
def reset (o : Observed) : Observed :=
  { o with
    stream := o.stream.reset
    taken := o.taken.take (o.taken.length - (o.stream.journal.getD []).length) }

def resumeText (o : Observed) : TokenStep Observed Unit :=
  seen (fun s => { o with stream := s, left := o.stream :: o.left }) o.stream.resumeText

theorem look_stream (o : Observed) : seen stream o.look = o.stream.peek 0 := by
  unfold look
  cases o.stream.peek 0 <;> rfl

theorem take_stream (o : Observed) : seen stream o.take = o.stream.consume 0 := by
  unfold take
  cases o.stream.consume 0 <;> rfl

theorem resumeText_stream (o : Observed) : seen stream o.resumeText = o.stream.resumeText := by
  unfold resumeText
  cases o.stream.resumeText <;> rfl

instance : TokenSource Observed where
  look := look
  take := take
  begin? := begin?
  commit := commit
  reset := reset
  resumeText := resumeText
  weight o := o.stream.weight
  room o := o.stream.room
  take_of_look {o token o'} looked := by
    have shown := look_stream o
    rw [looked] at shown
    obtain ⟨s, took⟩ := TokenStream.consume_of_peek shown.symm
    exact ⟨_, by rw [take, took]⟩
  weight_le_room o := weight_le_room o.stream
  weight_look_le o := by
    rw [← after_seen stream, look_stream]
    exact weight_look_le o.stream
  room_look_le o := by
    rw [← after_seen stream, look_stream]
    exact room_look_le o.stream
  weight_take_le o := by
    rw [← after_seen stream, take_stream]
    exact weight_take_le o.stream
  weight_take_lt {o token o'} taken := by
    have shown := take_stream o
    rw [taken] at shown
    exact TokenStream.weight_consume_lt shown.symm
  room_take_le o := by
    rw [← after_seen stream, take_stream]
    exact room_take_le o.stream
  room_begin_le {o o'} begun := by
    obtain ⟨s, opened, rfl⟩ := Option.map_eq_some_iff.1 begun
    exact room_begin_le (σ := TokenStream) opened
  weight_commit_le o := weight_commit_le o.stream
  weight_reset_le o := weight_reset_le o.stream
  weight_resumeText_le o := by
    rw [← after_seen stream, resumeText_stream]
    exact weight_resumeText_le o.stream

theorem view_stream : View stream where
  look := look_stream
  take := take_stream
  begins o := by
    simp only [TokenSource.begin?, begin?, Option.map_map]
    exact Option.map_id_apply
  commit _ := rfl
  reset _ := rfl

instance : RemembersOnce Observed := view_stream.remembersOnce

end Observed

end Frontend
