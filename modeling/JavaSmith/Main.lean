import JavaSmith.CommandLine

/-! The program: reads its arguments, and prints or writes what they come to. -/
open JavaSmith.CommandLine

def JavaSmith.CommandLine.chooseSeed : IO UInt64 := do
  let bytes ← IO.getRandomBytes 8
  return bytes.foldl (fun seed byte => seed * 256 + byte.toUInt64) 0

def main (args : List String) : IO UInt32 := do
  let outcome := run args (← chooseSeed)
  match outcome with
  | .printed text => IO.print text
  | .failed f => IO.eprintln (logText f)
  | .refused => IO.eprintln "error: the arguments are not understood"
  | .written path content =>
    try IO.FS.writeFile path content
    catch e =>
      IO.eprintln s!"Error: \"{e}\" while attempting to write to {path}"
      return fatalCode.toUInt32
  return outcome.exitCode.toUInt32
