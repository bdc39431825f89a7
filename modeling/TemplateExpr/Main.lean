import TemplateExpr.CommandLine.Program

/-!
# Entry point

Reads standard input where the command line needs it, and prints the outcome.
-/

open TemplateExpr

/-- Everything that is left of a stream, after the given text. -/
partial def readAll (stream : IO.FS.Stream) (before : String) : IO String := do
  let line ← stream.getLine
  if line.isEmpty then return before else readAll stream (before ++ line)

/-- Run the program with the arguments of the command line. -/
def main (arguments : List String) : IO UInt32 := do
  let stdin ← IO.getStdin
  let input ← if Program.readsInput (.ofArguments arguments) && !(← stdin.isTty) then
      readAll stdin ""
    else pure ""
  match Program.run arguments input with
  | .success output =>
    IO.print output
    return 0
  | .failure error =>
    IO.eprintln error.message
    return 1
  | .usage =>
    IO.eprintln "Usage: bindexpr [OPTIONS] <COMMAND>"
    return 2
