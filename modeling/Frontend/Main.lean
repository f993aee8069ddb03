import Frontend.CommandLine

-- The command itself: files and streams around what `Frontend.CommandLine` computes.

open Frontend.CommandLine

partial def answerInput (stage : Stage) : IO UInt32 := do
  let stdout ← IO.getStdout
  stdout.putStr prompt
  stdout.flush
  let line ← (← IO.getStdin).getLine
  if line.isEmpty then
    stdout.putStr farewell
    return 0
  else
    stdout.putStr (answer stage line)
    answerInput stage

def readFile? (path : String) : IO (Option ByteArray) := do
  try
    return some (← IO.FS.readBinFile path)
  catch _ =>
    return none

def main (arguments : List String) : IO UInt32 := do
  match Task.ofArguments arguments with
  | .refuse =>
    IO.eprintln "usage: [--emit tokens|syntax|semantic] [-v|-vv|-q|-qq] [FILE]"
    return 2
  | .printFile stage path =>
    let outcome := fileOutcome stage (← readFile? path)
    IO.print outcome.output
    return UInt32.ofNat outcome.code
  | .answerLines stage =>
    try
      answerInput stage
    catch _ =>
      return 1
