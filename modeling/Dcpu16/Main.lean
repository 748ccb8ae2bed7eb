/-
The program: the command line over the files of the system, with the language of expressions as
the evaluator.
-/
import Dcpu16.CommandLine.Run
import Dcpu16.Expression.Evaluate

namespace Dcpu16.CommandLine

/-- Why the system refused, without the file's name. -/
def systemReason : IO.Error → Text
  | .noFileOrDirectory .. => FileError.notFound.message
  | .inappropriateType _ code details =>
    if code = 20 then FileError.notDirectory.message
    else if code = 21 then FileError.isDirectory.message
    else Text.ofString details
  | e => Text.ofString (toString e)

def pathString (t : Text) : String := (String.fromUTF8? ⟨t.toArray⟩).getD ""

/-- The bytes behind a handle. A failure is part of the input. -/
def readHandle (path : Text) (handle : IO.FS.Handle) : IO Input := do
  try
    return { text := (← handle.readBinToEnd).toList }
  catch e =>
    return { text := [], failure := some (readReason path (systemReason e)) }

/-- The files of the machine. -/
def machineAccess : Access IO where
  read path := do
    try
      return .ok (← readHandle path (← IO.FS.Handle.mk (pathString path) .read))
    catch e =>
      return .error (systemReason e)
  write path bytes := do
    try
      IO.FS.writeBinFile (pathString path) ⟨bytes.toArray⟩
      return .ok ()
    catch e =>
      return .error (systemReason e)

/-- Prints what a run has to say and gives its exit status. -/
def Ending.print (e : Ending) : IO UInt32 := do
  (← IO.getStdout).write ⟨e.stdout.toArray⟩
  (← IO.getStderr).write ⟨e.stderr.toArray⟩
  return e.status

end Dcpu16.CommandLine

open Dcpu16 CommandLine in
def main (args : List String) : IO UInt32 := do
  let _ : Evaluator := ⟨Expression.evaluate⟩
  let ending ← perform (args.map Text.ofString) machineAccess
  ending.print
