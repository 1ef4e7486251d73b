import JsonBinding.Command

/-!
# Entry point

Runs the command on the files of the system.
-/

namespace JsonBinding

/-- An operation of the system, refused with the reason that the system gives. -/
def attempt {α : Type} (x : IO α) : IO (Except String α) := do
  try
    pure (.ok (← x))
  catch e =>
    pure (.error (toString e))

/-- The operations of the system. -/
def systemFiles : Files IO where
  read path := attempt (IO.FS.readFile path)
  makeDirectory path := attempt (IO.FS.createDirAll path)
  write path text := attempt (IO.FS.writeFile path text)

end JsonBinding

/-- Runs the command; a fault is told and gives the exit code 1. -/
def main (args : List String) : IO UInt32 := do
  match ← (JsonBinding.Command.run JsonBinding.systemFiles args : ExceptT JsonBinding.Fault IO Unit) with
  | .ok () => pure 0
  | .error fault =>
    IO.eprintln s!"Error: {fault.message}"
    pure 1
