import Shader.Command.Run
import Shader.Directory

/-!
# The program

Reads the files that the command line names and runs the command on their contents.
-/

namespace Shader

/-- The number of a failure, which the system gives with or without a minus sign. -/
def systemNumber (code : UInt32) : Nat := code.toInt32.toInt.natAbs

/-- The failure that the system reports, if it concerns the path. -/
def pathFailure? : IO.Error → Option PathFailure
  | .noFileOrDirectory _ code _ => PathFailure.ofNumber? (systemNumber code)
  | .inappropriateType _ code _ => PathFailure.ofNumber? (systemNumber code)
  | .permissionDenied _ code _ => PathFailure.ofNumber? (systemNumber code)
  | .invalidArgument _ code _ => PathFailure.ofNumber? (systemNumber code)
  | _ => none

def readContent (path : String) : IO (Except String String) := do
  try
    return .ok (← IO.FS.readFile path)
  catch e => return .error ((pathFailure? e).elim (toString e) PathFailure.message)

def runProgram (arguments : List String) : IO UInt32 := do
  let paths := match Command.ofArguments arguments with
    | .ok c => c.paths
    | .error _ => []
  let contents ← paths.mapM fun path => do return (path, ← readContent path)
  let files : Files := fun path =>
    (contents.lookup path).getD (.error PathFailure.notFound.message)
  let outcome := Command.runArguments files arguments
  IO.print outcome.output.out
  IO.eprint outcome.output.err
  return outcome.status.toUInt32

end Shader

def main (arguments : List String) : IO UInt32 := Shader.runProgram arguments
