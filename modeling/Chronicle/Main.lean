import Chronicle.CommandLine.Run

/-!
# The program

Reads what the command line names, runs it, and prints the outcome.
-/

namespace Chronicle

/-- What is found at a path on disk. -/
def readState (path : String) : IO FileState := do
  try
    return .file (← IO.FS.readBinFile path)
  catch
    | .noFileOrDirectory .. => return .missing
    | _ => return .directory

def homeDirectory : IO (Option String) := do
  match ← IO.getEnv "HOME" with
  | some home => return some home
  | none => IO.getEnv "USERPROFILE"

def readStates : List String → IO (List (String × FileState))
  | [] => return []
  | path :: more => do
    let state ← readState path
    return (path, state) :: (← readStates more)

end Chronicle

open Chronicle in
def main (words : List String) : IO UInt32 := do
  let home ← homeDirectory
  let states ← readStates (pathsOf home words)
  let outcome := run (fun path => (states.lookup path).getD .missing) home words
  IO.print outcome.output
  match outcome.failure with
  | some failure => IO.eprintln ("Error: " ++ failure.message)
  | none => if outcome.code == 2 then IO.eprint usage
  return outcome.code.toUInt32
