import RegexSearch.CommandLine

/-! The command line as a program. Standard input is read only where the texts come from it. -/
namespace RegexSearch.CommandLine

def palette : IO Palette := do
  let terminal ← (← IO.getStdout).isTty
  return .ofEnvironment (← IO.getEnv "CLICOLOR_FORCE") (← IO.getEnv "NO_COLOR") (← IO.getEnv "CLICOLOR") terminal

def Plan.input : Plan → IO ByteArray
  | searchInput _ _ => do (← IO.getStdin).readBinToEnd
  | _ => return .empty

end RegexSearch.CommandLine

open RegexSearch.CommandLine in
def main (arguments : List String) : IO UInt32 := do
  let p ← palette
  let todo := plan p arguments
  let outcome := todo.run p (← todo.input)
  IO.print outcome.stdout
  IO.eprint outcome.stderr
  return outcome.exit.toUInt32
