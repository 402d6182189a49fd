import Pathwise.CommandLine

open Pathwise Pathwise.CommandLine

/-- The content of a file, or why it cannot be read. -/
def readProgram (path : String) : IO (Except String String) := do
  try
    return .ok (← IO.FS.readFile path)
  catch
    | .noFileOrDirectory .. => return .error "No such file or directory (os error 2)"
    | e => return .error (toString e)

def main (args : List String) : IO UInt32 := do
  let outcome ←
    match parse args with
    | .error stop => pure (Outcome.ofStop stop)
    | .ok s =>
      let content ← readProgram s.path
      pure (Outcome.ofAnalyses s (s.analyze content))
  for r in outcome.log do
    IO.eprintln r.text
  IO.print outcome.output
  if let some e := outcome.error? then IO.eprintln e.message
  return outcome.exitCode
