import LoadFeedback.Files.Tree
import LoadFeedback.Simulation.Summary

/-!
A simulation as a program runs it. The log is opened before anything else, and a log that cannot be
opened ends the program.
-/

namespace LoadFeedback.Simulation

/-- How a program ended and what it showed. -/
structure Outcome where
  failure : Option String
  /-- The records that were shown among the error messages. -/
  shown : List String
  summary : List String
  deriving DecidableEq, Repr

def Outcome.status (o : Outcome) : Nat :=
  if o.failure.isSome then 1 else 0

/-- Where the records go. Without a file they are shown among the error messages. -/
def openLog (files : FileTree) (o : Options Float) : Except FileFault Destination :=
  match o.logFile with
  | none => .ok .errorOutput
  | some path => files.create path

def execute (files : FileTree) (o : Options Float) : Outcome :=
  match openLog files o with
  | .error fault => ⟨some fault.message, [], []⟩
  | .ok destination =>
    let result := perform o
    { failure := result.failure
      shown := if destination = .errorOutput then result.records else []
      summary := result.summary }

end LoadFeedback.Simulation
