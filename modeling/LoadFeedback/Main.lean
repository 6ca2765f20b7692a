import LoadFeedback.Files.Fault
import LoadFeedback.Simulation.CommandLine
import LoadFeedback.Simulation.Summary

/-!
The simulation as a program. Records go to standard error, or into a file if one is named, and the
summary to standard output. Refused arguments end with status two, a failure with status one.
-/

namespace LoadFeedback

/-- Why a file could not be opened, if it is known that this is what went wrong. -/
def FileFault.ofError? : IO.Error → Option FileFault
  | .noFileOrDirectory _ code details => some (.ofCode code.toNat details)
  | .inappropriateType _ code details => some (.ofCode code.toNat details)
  | .permissionDenied _ code details => some (.ofCode code.toNat details)
  | .invalidArgument _ code details => some (.ofCode code.toNat details)
  | .noSuchThing _ code details => some (.ofCode code.toNat details)
  | .resourceBusy code details => some (.ofCode code.toNat details)
  | .resourceExhausted _ code details => some (.ofCode code.toNat details)
  | .otherError code details => some (.ofCode code.toNat details)
  | _ => none

def openRecords (file : Option String) : IO (Except FileFault IO.FS.Stream) := do
  match file with
  | none => return .ok (← IO.getStderr)
  | some path =>
    try
      return .ok (.ofHandle (← IO.FS.Handle.mk path .write))
    catch error =>
      match FileFault.ofError? error with
      | some fault => return .error fault
      | none => throw error

def fail (text : String) : IO UInt32 := do
  IO.eprintln ("Error: " ++ text)
  return 1

end LoadFeedback

open LoadFeedback

/-- Runs the simulation that the arguments ask for. -/
def main (arguments : List String) : IO UInt32 := do
  match CommandLine.parse? arguments with
  | none =>
    IO.eprintln "error: invalid arguments"
    return 2
  | some options =>
    match ← openRecords options.logFile with
    | .error fault => fail fault.message
    | .ok stream =>
      let result := Simulation.perform options
      result.records.forM fun line => stream.putStr (line ++ "\n")
      result.summary.forM IO.println
      match result.failure with
      | none => return 0
      | some text => fail text
