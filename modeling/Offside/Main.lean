import Offside.Command.Arguments

/-!
# The program

Reads the files that a command line is about, executes it, and writes what is to be written.
-/

namespace Offside

/-- What stands at a path of the file system. -/
def findPath (path : String) : IO Found := do
  try
    let bytes ← IO.FS.readBinFile path
    match String.fromUTF8? bytes with
    | some text => return .text text.toList
    | none => return .undecodable
  catch
    | .noFileOrDirectory .. => return .missing
    | .inappropriateType (some _) .. => return .notDirectory
    | .invalidArgument .. => return .nameTooLong
    | _ => return .directory

/-- The paths that a command line may look up. -/
def pathsOf (arguments : List String) : List String :=
  match Request.parse arguments with
  | .ok request => request.paths
  | .error _ => []

end Offside

open Offside

/-- Executes a command line. -/
def main (arguments : List String) : IO UInt32 := do
  let found ← (pathsOf arguments).mapM fun path => do return (path, ← findPath path)
  let execution := execute (fun path => (found.lookup path).getD .missing) arguments
  match execution.written with
  | some (path, text) => IO.FS.writeFile path (String.ofList text)
  | none => pure ()
  if execution.exitCode == 2 && execution.output.isEmpty then IO.eprint helpText
  IO.print execution.output
  return execution.exitCode.toUInt32
