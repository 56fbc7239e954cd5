import Rill.Cli.Run

/-!
# The program

Reads the files that the arguments name, runs the command on them, and carries
out what it asks for.
-/

namespace Rill.Cli

/-- What an error of the system says about the path, told by its number. -/
def pathError? : IO.Error → Option PathError
  | .noFileOrDirectory .. => some .notFound
  | .inappropriateType _ 21 _ => some .isADirectory
  | .inappropriateType .. => some .notADirectory
  | _ => none

/-- What is at a path; whatever exists but cannot be read as a file counts as a directory. -/
def readNode (path : String) : IO (Option Node) := do
  try
    return some (.file (← IO.FS.readBinFile path))
  catch e =>
    match pathError? e with
    | some .notFound | some .notADirectory => return none
    | _ => return some .directory

def snapshot (paths : List String) : IO Disk := do
  let nodes ← paths.filterMapM fun path => do
    return (← readNode path).map (path, ·)
  return { look := fun path => nodes.lookup path, refusal := fun _ => none }

def perform (outcome : Outcome) : IO UInt32 := do
  IO.print outcome.stdout
  IO.eprint outcome.stderr
  return outcome.status.toUInt32

end Rill.Cli

open Rill.Cli

def main (args : List String) : IO UInt32 := do
  let paths := match Command.ofArgs args with
    | .ok command => command.sources
    | .error _ => []
  let outcome := run (← snapshot paths) args
  match outcome.output with
  | none => perform outcome
  | some (path, text) =>
    try
      IO.FS.writeFile path text
      perform outcome
    catch e =>
      perform (.unwritable path ((pathError? e).elim (toString e) PathError.message))
