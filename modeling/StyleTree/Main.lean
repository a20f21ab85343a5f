import StyleTree.Command.Run

/-!
# The program

Reads the files that the command line names, runs it, and puts out what it comes to.
-/

namespace StyleTree.Command

/-- What stands under a name. A directory fails to be read, without its name; a name that goes on
behind a file fails to be opened. -/
def stateOf (name : String) : IO FileState := do
  match ← (IO.FS.readFile name).toBaseIO with
  | .ok contents => return .text contents
  | .error (.noFileOrDirectory ..) => return .missing
  | .error (.inappropriateType none ..) => return .directory
  | .error (.inappropriateType (some _) ..) => return .missing
  | .error e => throw e

end StyleTree.Command

open StyleTree.Command

def main (args : List String) : IO UInt32 := do
  let found ← (fileNames args).mapM fun name => return (name, ← stateOf name)
  let outcome := run (fun name => (found.lookup name).getD .missing) args
  if let some (name, contents) := outcome.written then IO.FS.writeFile name contents
  IO.print outcome.stdout
  IO.eprint outcome.stderr
  if let some e := outcome.uncaught then IO.eprintln s!"Error: {e.message}"
  return outcome.exitCode.toUInt32
