import MapScript.CommandLine.Commands
import MapScript.Log.Time
import Std.Time.DateTime.Timestamp

/-!
# The program

Carries the job of a command line out on the files of the machine.
-/
namespace MapScript

/-- The number of an error of the machine. Some errors carry it with a minus sign. -/
def errorNumber (code : UInt32) : UInt32 := min code (0 - code)

def FileFault.ofError : IO.Error → FileFault
  | .noFileOrDirectory _ _ _ => .notFound
  | .inappropriateType _ code _ => if errorNumber code = 21 then .isDirectory else .notDirectory
  | .permissionDenied _ _ _ => .denied
  | .invalidArgument _ code details =>
    if errorNumber code = 36 then .nameTooLong else .other details
  | e => .other (toString e)

/-- The text of a file of the machine. -/
def readText (path : String) : IO (Except FileFault String) := do
  try
    match String.fromUTF8? (← IO.FS.readBinFile path) with
    | some text => return .ok text
    | none => return .error .notUtf8
  catch e => return .error (.ofError e)

def writeText (path text : String) : IO (Option FileFault) := do
  try
    IO.FS.writeFile path text
    return none
  catch e => return some (.ofError e)

/-- Carries a job out on the machine. -/
def Job.perform : Job → IO Finish
  | .finish result => return result
  | .read path next => do (next (← readText path)).perform
  | .write path text next => do (next (← writeText path text)).perform

/-- `NO_COLOR` switches colors off, `FORCE_COLOR` switches them on, and else a terminal has them. -/
def wantsColor : IO Bool := do
  if (← IO.getEnv "NO_COLOR").isSome then return false
  if (← IO.getEnv "FORCE_COLOR").isSome then return true
  (← IO.getStdout).isTty

end MapScript

open MapScript in
def main (args : List String) : IO UInt32 := do
  let nanos := (← Std.Time.Timestamp.now).toNanosecondsSinceUnixEpoch.val
  let around : Surroundings := ⟨← wantsColor, some (utcText (nanos.toNat / 1000))⟩
  let result ← (program around args).perform
  IO.print result.output
  IO.eprint result.errors
  return result.exit.toUInt32
