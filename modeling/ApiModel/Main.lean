import ApiModel.Command
/-!
# The program

Runs a command on the files of the system.
-/

namespace ApiModel.Command

/-- The reason for which the system refuses a file. -/
def fileError : IO.Error → FileError
  | .noFileOrDirectory _ _ _ => .missing
  | .inappropriateType _ code details =>
    if code == 20 then .notDirectory else .system code.toNat details
  | .permissionDenied _ code details => .system code.toNat details
  | other => .system 5 (toString other)

/-- Reads a file of the system as a text. -/
def readSystemFile (path : String) : IO (Except FileError String) := do
  match ← (IO.FS.readBinFile path).toBaseIO with
  | .error error => return .error (fileError error)
  | .ok bytes =>
    match String.fromUTF8? bytes with
    | some text => return .ok text
    | none => return .error .notText

end ApiModel.Command

/-- The program. -/
def main (args : List String) : IO UInt32 := do
  let outcome ← ApiModel.Command.run ApiModel.Command.readSystemFile args
  match outcome.settings with
  | some text => IO.FS.writeFile ApiModel.Config.fileName text
  | none => pure ()
  (← IO.getStdout).putStr outcome.output
  (← IO.getStderr).putStr outcome.errors
  return UInt32.ofNat outcome.code
