import Proposals.CommandLine

/-!
# `Proposals.Main` — the program for operators

Reads the variables, the files that the arguments name and, if they ask for it, the standard input;
runs the command; and writes what it left.

## Contents
- `Proposals.Program.surroundings`: variables and files.
- `main`: the program.
-/

namespace Proposals.Program

open Proposals.CommandLine

/-- The fault of a file that cannot be read: a path that leads through a file cannot be opened, a
folder can. -/
def faultOf (path : String) : IO.Error → Fault
  | .noFileOrDirectory .. => .file (.notFound path)
  | .inappropriateType (some _) _ _ => .file (.notDirectory path)
  | .inappropriateType none _ _ => .file (.isDirectory path)
  | _ => .data .badValue

/-- The text at a path, or why there is none. -/
def fetch (path : String) : IO (Outcome String) := do
  try return .ok (← IO.FS.readFile path)
  catch e => return .error (faultOf path e)

/-- The variables that settings come from, by their names in capital and in small letters. -/
def environment : IO (List (String × String)) := do
  let names := ["chain_id", "contracts_file", "log_level"].map Settings.variableName
  let spellings := names.flatMap fun name => [name.map Char.toUpper, name]
  let found ← spellings.mapM fun name => do return (← IO.getEnv name).map fun value => (name, value)
  return found.filterMap id

/-- Surroundings with the texts at the given paths. -/
def surroundings (env : List (String × String)) (paths : List String) : IO Surroundings := do
  let texts ← paths.mapM fun path => do return (path, ← fetch path)
  let read := fun path => (Table.find? path texts).getD (.error (.file (.notFound path)))
  return { env, read }

/-- The paths that a run may read, given what is known from the file of assignments. -/
def pathsOf (s : Surroundings) (args : List String) : List String :=
  match s.settings with
  | .error _ => []
  | .ok settings =>
    match Invocation.ofArguments settings args with
    | .error _ => []
    | .ok i => i.paths

/-- Everything on the standard input. -/
partial def readAll (input : IO.FS.Stream) (read : String) : IO String := do
  let line ← input.getLine
  if line.isEmpty then return read else readAll input (read ++ line)

/-- How the program is used. -/
def usage : String :=
  "usage: [--log-level LEVEL] [--contracts-file FILE] COMMAND [--chain-id CHAIN]\n" ++
  "commands: decode --proposal FILE, encode --actions FILE, contracts\n"

/-- Writes what a run left and gives its exit status. -/
def finish : Outcome Ending → IO UInt32
  | .ok (.finished result) => do
    IO.print result.stdout
    IO.eprint result.stderr
    return result.code.toUInt32
  | .ok (.halted halt) => do
    if halt = .help then IO.print usage else IO.eprint usage
    return halt.status.toUInt32
  | .error fault => do
    IO.eprintln fault.message
    return 1

end Proposals.Program

open Proposals Proposals.Program in
/-- Runs the command that the arguments ask for. -/
def main (args : List String) : IO UInt32 := do
  let env ← environment
  let known ← surroundings env [Settings.assignmentFile]
  let s ← surroundings env (Settings.assignmentFile :: pathsOf known args)
  let stdin ← if args.contains CommandLine.standardInput then readAll (← IO.getStdin) ""
    else pure ""
  finish (CommandLine.run s stdin args)
