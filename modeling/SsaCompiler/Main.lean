import SsaCompiler.CommandLine.Run

/-!
# The program

The command line on the files of the machine.
-/

namespace SsaCompiler

namespace Machine

/-- The value of an action on the file at a path, or none if it fails. -/
def succeeds? {α : Type} (path : String) (action : IO α) : IO (Option α) := do
  if Path.isUsable path then
    try
      return some (← action)
    catch _ =>
      return none
  else return none

def files : FileAccess IO where
  read path := succeeds? path (IO.FS.readFile path)
  isFile path := do
    match ← succeeds? path (IO.FS.Handle.mk path .read >>= fun handle => handle.read 1) with
    | some _ => return true
    | none => return false
  createDirectories path := return (← succeeds? path (IO.FS.createDirAll path)).isSome
  write path text := return (← succeeds? path (IO.FS.writeFile path text)).isSome

def secondsText (milliseconds : Nat) : String :=
  let hundredths := (milliseconds + 5) / 10
  let rest := hundredths % 100
  (hundredths / 100).repr ++ "." ++ (if rest < 10 then "0" else "") ++ rest.repr ++ "s"

/-- The lines of an outcome, with the time taken where it belongs. -/
def timedLines (outcome : CommandLine.Outcome) (milliseconds : Nat) : List String :=
  match outcome.timed, outcome.output.reverse with
  | true, last :: rest => (rest.reverse ++ [last ++ " in " ++ secondsText milliseconds])
  | _, _ => outcome.output

end Machine

end SsaCompiler

open SsaCompiler

def main (arguments : List String) : IO UInt32 := do
  let start ← IO.monoMsNow
  let outcome ← CommandLine.run Machine.files arguments
  let stop ← IO.monoMsNow
  for line in Machine.timedLines outcome (stop - start) do
    IO.println line
  IO.eprint outcome.errors
  return outcome.status.toUInt32
