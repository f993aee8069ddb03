import Frontend.Compilation
import Frontend.Scope.Outline

-- The command: its arguments, and what it prints.  With a file it prints what a stage makes of the file;
-- without one it answers the lines of its input one by one.

namespace Frontend.CommandLine

inductive Stage where
  | tokens
  | written
  | meaning
deriving DecidableEq

def Stage.ofName? : String → Option Stage
  | "tokens" => some .tokens
  | "syntax" => some .written
  | "semantic" => some .meaning
  | _ => none

def emit (stage : Stage) (source : String) : Except CompileError String :=
  match stage with
  | .tokens => (compileTokens source).map fun tokens => String.join (tokens.map Token.listingLine)
  | .written => (readProgram source).mapError CompileError.reading |>.map Surface.Node.tree
  | .meaning => (compile source).map fun c => c.meaning.text

-- What the arguments ask for, as far as they were read.
structure Request where
  stage : Option Stage
  -- How often more messages were asked for.
  verbose : Nat
  -- How often fewer messages were asked for.
  quiet : Nat
  file : Option String

def Request.addFlags (request : Request) : List Char → Option Request
  | [] => some request
  | 'v' :: flags => { request with verbose := request.verbose + 1 }.addFlags flags
  | 'q' :: flags => { request with quiet := request.quiet + 1 }.addFlags flags
  | _ :: _ => none

def Request.addStage (request : Request) (name : String) : Option Request :=
  match request.stage, Stage.ofName? name with
  | none, some stage => some { request with stage := some stage }
  | _, _ => none

def Request.addFile (request : Request) (path : String) : Option Request :=
  match request.file with
  | none => some { request with file := some path }
  | some _ => none

def stageArgument? (argument : String) : Option String :=
  let mark := "--emit=".toList
  if mark.isPrefixOf argument.toList then some (String.ofList (argument.toList.drop mark.length))
  else none

def Request.read (request : Request) : List String → Option Request
  | [] => some request
  | ["--emit"] => none
  | "--emit" :: name :: rest => (request.addStage name).bind fun r => r.read rest
  | "--" :: paths => paths.foldlM Request.addFile request
  | argument :: rest =>
    match stageArgument? argument with
    | some name => (request.addStage name).bind fun r => r.read rest
    | none =>
      match argument.toList with
      | '-' :: '-' :: _ => none
      | '-' :: flag :: flags => (request.addFlags (flag :: flags)).bind fun r => r.read rest
      | _ => (request.addFile argument).bind fun r => r.read rest

inductive Task where
  | refuse
  | printFile (stage : Stage) (path : String)
  | answerLines (stage : Stage)
deriving DecidableEq

-- The task that the arguments set.  More and fewer messages exclude each other, and neither can be
-- asked for more than twice.
def Task.ofArguments (arguments : List String) : Task :=
  match Request.read ⟨none, 0, 0, none⟩ arguments with
  | none => .refuse
  | some r =>
    if 2 < r.verbose ∨ 2 < r.quiet ∨ (0 < r.verbose ∧ 0 < r.quiet) then .refuse
    else
      match r.file with
      | some path => .printFile (r.stage.getD .meaning) path
      | none => .answerLines (r.stage.getD .meaning)

-- What the command leaves behind: its exit code, and what it printed.
structure Outcome where
  code : Nat
  output : String
deriving DecidableEq

def prompt : String := "> "

def farewell : String := "^D\n"

def answer (stage : Stage) (line : String) : String :=
  match emit stage line with
  | .ok result => result
  | .error e => e.message ++ "\n"

-- The lines of a text in bytes, each with the line feed that ends it.
def splitLines : List UInt8 → List (List UInt8)
  | [] => []
  | b :: bs =>
    if b = 10 then [b] :: splitLines bs
    else
      match splitLines bs with
      | [] => [[b]]
      | line :: lines => (b :: line) :: lines

-- What is printed for the lines of an input, up to one that is no text.
def transcript (stage : Stage) : List (List UInt8) → Outcome
  | [] => ⟨0, prompt ++ farewell⟩
  | line :: lines =>
    match String.fromUTF8? ⟨line.toArray⟩ with
    | none => ⟨1, prompt⟩
    | some text =>
      let others := transcript stage lines
      ⟨others.code, prompt ++ answer stage text ++ others.output⟩

def fileOutcome (stage : Stage) (content : Option ByteArray) : Outcome :=
  match content.bind String.fromUTF8? with
  | none => ⟨1, ""⟩
  | some source =>
    match emit stage source with
    | .ok result => ⟨0, result⟩
    | .error _ => ⟨1, ""⟩

-- The whole command, where `files` gives the content of the files that exist.
def run (arguments : List String) (files : String → Option ByteArray) (input : ByteArray) :
    Outcome :=
  match Task.ofArguments arguments with
  | .refuse => ⟨2, ""⟩
  | .printFile stage path => fileOutcome stage (files path)
  | .answerLines stage => transcript stage (splitLines input.toList)

end Frontend.CommandLine
