import Unimported.Snapshot

/-!
# `Unimported.Main`: the program

Reads the arguments, takes a snapshot of the files, lets `run` decide what comes of
them, and carries it out.
-/

set_option autoImplicit false

namespace Unimported

/-- Whether a name is set in the environment, and not to zero. -/
def isOn (name : String) : IO Bool := do
  return match ← IO.getEnv name with
    | some value => value ≠ "0"
    | none => false

/-- Whether the report is coloured: always if that is forced, never if it is refused, and
otherwise on a terminal. -/
def useColour : IO Bool := do
  if ← isOn "CLICOLOR_FORCE" then return true
  if (← IO.getEnv "NO_COLOR").isSome then return false
  let wanted := (← IO.getEnv "CLICOLOR").all (· ≠ "0")
  return wanted && (← (← IO.getStdout).isTty)

/-- The files that a command line looks at. -/
def snapshotFor (arguments : List Argument) : IO Workspace :=
  match CommandLine.parse arguments with
  | .ok command => Snapshot.take command
  | .error _ => return ⟨FileTree.empty, []⟩

/-- Writes the output file of a command line, if the run has changed it. -/
def writeOutput (arguments : List Argument) (before after : Workspace) : IO Unit := do
  match CommandLine.parse arguments with
  | .ok { output? := some p, .. } =>
    match after.read p with
    | .ok bytes =>
      if (before.read p).toOption ≠ some bytes then
        IO.FS.writeBinFile p.display (ByteArray.mk bytes.toArray)
    | .error _ => pure ()
  | _ => pure ()

end Unimported

open Unimported in
/-- The program: the exit status of a command line. -/
def main (args : List String) : IO UInt32 := do
  let arguments := args.map fun a => Utf8.encode a.toList
  let before ← snapshotFor arguments
  let outcome := run before arguments (← useColour)
  let stderr ← IO.getStderr
  for line in outcome.log do
    stderr.putStrLn (line.level.name ++ " " ++ line.message)
  writeOutput arguments before outcome.workspace
  (← IO.getStdout).putStr (String.ofList outcome.stdout)
  match outcome.failure with
  | some e => stderr.putStrLn ("Error: " ++ e.message)
  | none =>
    if outcome.exitCode = 2 then
      stderr.putStrLn "error: unexpected argument; for more information, try '--help'."
  return outcome.exitCode.toUInt32
