import Typographical.CommandLine
import Typographical.CommandLine.Directory

/-!
# The executable

Reads the files that the arguments name, runs the command line and prints what
it says.
-/

namespace Typographical

namespace CommandLine

/-- The text of a file, or why it cannot be read. A directory is noticed only
when it is read, and the name is not known any more by then. -/
def readFile (name : String) : IO (Except FileError String) := do
  try
    return .ok (Utf8.text (← IO.FS.readBinFile name))
  catch
    | .noFileOrDirectory .. => return .error .missing
    | .permissionDenied .. => return .error .forbidden
    | .invalidArgument .. => return .error .nameTooLong
    | .inappropriateType (some _) .. => return .error .notDirectory
    | _ => return .error .isDirectory

end CommandLine

end Typographical

open Typographical in
def main (args : List String) : IO UInt32 := do
  let files ← args.mapM (fun name => do return (name, ← CommandLine.readFile name))
  let read (name : String) : Except String String :=
    ((files.lookup name).getD (.error .missing)).mapError (fun e => e.message name)
  let screen : Option CommandLine.Screen :=
    if ← (← IO.getStdout).isTty then some {} else none
  let outcome := CommandLine.run read args screen
  IO.print outcome.printed
  return outcome.exitCode
