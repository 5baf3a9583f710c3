import WeightedDns.CommandLine.Run

/-!
# The program

Reads the command line and the files that it names, runs the command and prints its value. No
connection to a network is built in: every request fails as one that finds no one to connect to.
-/

namespace WeightedDns.CommandLine

/-- A transport without a network. -/
def unconnected : Wire.Transport Unit where
  stamp _ := ⟨"", ""⟩
  send _ _ := (.failed false "no network", ())
  wait _ _ := ()

/-- The reason for which the system refuses a file. -/
def reasonOf : IO.Error → FileError
  | .noFileOrDirectory .. => .notFound
  | .inappropriateType .. => .isFolder
  | e => .other (toString e)

/-- Read a file. -/
def readFile (path : String) : IO (Except FileError String) := do
  try
    return textOf (← IO.FS.readBinFile path)
  catch e =>
    return .error (reasonOf e)

/-- Read the files at some paths. -/
def readFiles : List String → IO (List (String × Except FileError String))
  | [] => return []
  | path :: rest => do
    let content ← readFile path
    return (path, content) :: (← readFiles rest)

/-- Read the variables of the environment with the given names. -/
def readVariables : List String → IO (List (String × String))
  | [] => return []
  | name :: rest => do
    let others ← readVariables rest
    match ← IO.getEnv name with
    | some value => return (name, value) :: others
    | none => return others

end WeightedDns.CommandLine

open WeightedDns.CommandLine

/-- Run the program with its arguments. -/
def main (args : List String) : IO UInt32 := do
  let environment := Environment.ofVariables (← readVariables Environment.variableNames)
  match parse environment args with
  | .error e =>
    IO.eprintln e.message
    return e.exitCode.toUInt32
  | .ok invocation =>
    let contents ← readFiles invocation.command.paths
    let files : Files := fun path => (contents.lookup path).getD (.error .notFound)
    match (invocation.execute files unconnected ()).1 with
    | .ok value =>
      IO.println (printed value)
      return 0
    | .error failure =>
      IO.eprintln (String.intercalate ": " failure.chain)
      return 1
