import Scaffold.Command.Run

/-!
# The command line program

Plays a session on the files of the machine.
-/
namespace Scaffold

/-- The system's own error, by its number where the library has a name for it. -/
def FileError.ofSystem : IO.Error → FileError
  | .noFileOrDirectory _ code details => ofCode code details
  | .inappropriateType _ code details => ofCode code details
  | .permissionDenied _ code details => ofCode code details
  | .otherError code details => ofCode code details
  | e => .other (toString e)
where
  /-- Some calls give the number of the error with its sign turned. -/
  ofCode (code : UInt32) (details : String) : FileError :=
    let code := min code (0 - code)
    if code = 2 then .noEntry
    else if code = 20 then .notDirectory
    else if code = 21 then .isDirectory
    else .other (details ++ " (os error " ++ toString code ++ ")")

/-- The answer of the system to a request. -/
def answered {α : Type} (request : IO α) : IO (Except FileError α) := do
  try
    pure (.ok (← request))
  catch e => pure (.error (.ofSystem e))

def Session.perform : Session → IO (Except CommandError String)
  | .done result => pure result
  | .size path next => do
    let size ← answered do
      let data ← (System.mkFilePath [path]).metadata
      return data.byteSize.toNat
    (next size).perform
  | .read path next => do (next (← answered (IO.FS.readBinFile path))).perform
  | .write path text next => do (next (← answered (IO.FS.writeFile path text))).perform

def Outcome.publish (o : Outcome) : IO UInt32 := do
  IO.print o.stdout
  IO.eprint o.stderr
  return o.exitCode.toUInt32

end Scaffold

open Scaffold in
def main (args : List String) : IO UInt32 := do
  match Host.standard.arguments args with
  | .error o => o.publish
  | .ok i =>
    let result ← (Session.ofInvocation .standard i).perform
    (Host.standard.outcome result).publish
