import BallotServer.Settings

/-! The command line: reads the settings and shows what a server would run with, or why none
would start. -/

namespace BallotServer.Main

def chance : IO (Vector UInt8 16) := do
  let bytes ← IO.getRandomBytes 16
  return Vector.ofFn fun i => bytes.data.getD i.val 0

def environment : IO (Setting → Option String) := do
  let given ← Setting.all.mapM fun s => do return (s, ← IO.getEnv s.variableName)
  return fun s => (given.lookup s).join

end BallotServer.Main

open BallotServer Main

def main (words : List String) : IO UInt32 := do
  match CommandLine.read words (← environment) with
  | .error e =>
    if e = .help ∨ e = .version then
      IO.print (CommandLine.message e)
      return 0
    IO.eprint (CommandLine.message e)
    return 2
  | .ok values => match Settings.ofValues (← chance) values with
    | .error e =>
      IO.eprintln e.message
      return if e = .overflow then 101 else 1
    | .ok settings =>
      IO.println ("listen address: " ++ settings.listenAddress)
      IO.println ("cookie key: " ++ settings.cookieKey.encoded)
      return 0
