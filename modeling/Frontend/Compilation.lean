import Frontend.Grammar.Node
import Frontend.Scope.Similar
import Frontend.Token.Listing
import Frontend.Typing.Node

-- The whole way from a source to the scope tree that it describes.

namespace Frontend

inductive CompileError where
  | notText
  | reading (error : ReadError)
  | typing (error : TypingError)
deriving DecidableEq

def CompileError.message : CompileError → String
  | notText => "failed to read source: stream did not contain valid UTF-8"
  | reading (.lexical e) => "lexical error at " ++ (ReadError.lexical e).message
  | reading (.grammatical e) => "syntax error at " ++ (ReadError.grammatical e).message
  | typing e => "semantic error: " ++ e.message

-- What a source says: the tree that is written there, and the scope tree that it describes.
structure Compilation where
  written : Surface.Node
  meaning : Scope.Tree

def compile (source : String) : Except CompileError Compilation :=
  match readProgram source with
  | .error e => .error (.reading e)
  | .ok written =>
    match typeProgram written with
    | .error e => .error (.typing e)
    | .ok meaning => .ok ⟨written, meaning⟩

-- A program is one that can be read and typed.
theorem compile_eq_ok {source : String} {c : Compilation} : compile source = .ok c ↔
    readProgram source = .ok c.written ∧ typeProgram c.written = .ok c.meaning := by
  obtain ⟨written, meaning⟩ := c
  unfold compile
  cases readProgram source with
  | error e => simp
  | ok node =>
    simp only [Except.ok.injEq]
    constructor
    · intro typed
      split at typed
      · cases typed
      · next means =>
        cases typed
        exact ⟨rfl, means⟩
    · rintro ⟨rfl, typed⟩
      rw [typed]

def compileBytes (bytes : ByteArray) : Except CompileError Compilation :=
  match String.fromUTF8? bytes with
  | none => .error .notText
  | some source => compile source

def compileTokens (source : String) : Except CompileError (List Token) :=
  match tokensOf source with
  | .error e => .error (.reading (.lexical e))
  | .ok tokens => .ok tokens

structure Comparison where
  sameWritten : Bool
  similar : Bool
  similarReversed : Bool

def Compilation.compare (a b : Compilation) : Comparison :=
  { sameWritten := decide (a.written = b.written)
    similar := a.meaning.similar Scope.Ref.root b.meaning Scope.Ref.root
    similarReversed := b.meaning.similar Scope.Ref.root a.meaning Scope.Ref.root }

end Frontend
