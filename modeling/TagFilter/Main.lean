import TagFilter.CommandLine

/-!
# The program

Runs the command line on the arguments of the process.
-/

/-- Prints what a call has to say, and ends with its exit code. -/
def main (args : List String) : IO UInt32 := do
  let out ← IO.getStdout
  let err ← IO.getStderr
  match (TagFilter.CommandLine.run .initial args).1 with
  | .help =>
    out.putStr (TagFilter.CommandLine.unlines TagFilter.CommandLine.usage)
    return 0
  | .misuse =>
    err.putStr (TagFilter.CommandLine.unlines TagFilter.CommandLine.usage)
    return 2
  | .done code output errors =>
    out.putStr output
    err.putStr errors
    return code.toUInt32
