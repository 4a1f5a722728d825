import AtomTimeline.CommandLine.Run

/-!
The program: runs what its arguments ask for on the files of the machine.
-/

namespace AtomTimeline

/-- The error that the machine reports for a file. -/
def FileError.ofMachine (e : IO.Error) : FileError :=
  match e with
  | .noFileOrDirectory _ _ _ => .notFound
  | .noSuchThing _ _ _ => .notFound
  | .permissionDenied _ _ _ => .permissionDenied
  | .inappropriateType _ 20 _ => .notDirectory
  | .inappropriateType _ 21 _ => .isDirectory
  | .invalidArgument _ 36 _ => .nameTooLong
  | .invalidArgument _ 40 _ => .tooManyLinks
  | e => .other (toString e)

/-- Runs a program on the files of the machine. -/
def FileProgram.runOnMachine {α : Type} : FileProgram α → IO α
  | .done a => pure a
  | .read path next => do
    let content ←
      try
        let content ← IO.FS.readBinFile path
        pure (Except.ok content.toList)
      catch e => pure (Except.error (FileError.ofMachine e))
    (next content).runOnMachine

end AtomTimeline

open AtomTimeline in
/-- Runs the program. -/
def main (args : List String) : IO UInt32 := do
  match ← (runArguments args).runOnMachine with
  | none => pure 1 -- never reached: such an import does not return
  | some outcome =>
    (← IO.getStdout).putStr outcome.output
    (← IO.getStderr).putStr outcome.messages
    pure (UInt32.ofNat outcome.exitStatus)
