import ObjectQuery.CommandLine
import ObjectQuery.Json.Pretty

/-!
# The program

Reads the files that are named on the command line, runs the script on the store, and
prints the report. The exit status tells whether there is a report, not how the
script fared.
-/

namespace ObjectQuery

/-- The environment variables that name settings, as far as they are set. -/
def settingVariables : IO (List (String × String)) := do
  Settings.names.filterMapM fun name => do
    let variableName := String.ofList ((Settings.variablePrefix ++ name).toList.map Char.toUpper)
    return (← IO.getEnv variableName).map (variableName, ·)

/-- The text of a file that may be missing. -/
def readIfThere (path : String) : IO String := do
  try IO.FS.readFile path catch _ => return "\x7b\x7d"

end ObjectQuery

open ObjectQuery in
/-- Runs a script on a store: the files are a store, a script, and perhaps settings. -/
def main (paths : List String) : IO UInt32 := do
  try
    let texts ← (paths.take 2).mapM fun (path : String) => IO.FS.readFile path
    let settings ← ((paths.drop 2).take 1).mapM readIfThere
    match CommandLine.run (← settingVariables) (texts ++ settings) with
    | .ok report =>
      IO.println report.toValue.prettyText
      return 0
    | .error failure =>
      IO.eprintln failure.message
      return 1
  catch problem =>
    IO.eprintln (toString problem)
    return 1
