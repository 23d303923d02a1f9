import GameTrainer.Program

/-!
# The program

Connects the commands to the files, streams and arguments of the operating
system.
-/

namespace GameTrainer

/-- What a fault of the operating system means. -/
def faultOf : IO.Error → FileFault
  | .noFileOrDirectory .. => .notFound
  | .alreadyExists .. => .alreadyExists
  | .inappropriateType _ 20 _ => .notADirectory
  | .inappropriateType _ 21 _ => .isADirectory
  | error => .other (toString error)

/-- The result of an action on files, with its fault if it failed. -/
def attempt {α : Type} (action : IO α) : IO (Except FileFault α) := do
  match ← action.toBaseIO with
  | .ok value => return .ok value
  | .error error => return .error (faultOf error)

instance : FileAccess IO where
  readBytes path := attempt do return (← IO.FS.readBinFile path).data
  writeBytes path content := attempt (IO.FS.writeBinFile path ⟨content⟩)
  fileExists path := do
    match ← attempt (IO.FS.readBinFile path) with
    | .error .notFound | .error .notADirectory => return false
    | _ => return true
  createParents path :=
    match FilePath.directories path with
    | [] => return .ok ()
    | directory :: _ => attempt (IO.FS.createDirAll directory)

end GameTrainer

/-- Run the program. -/
def main (args : List String) : IO UInt32 := do
  let environment ← IO.getEnv "CHEAT_CONFIG"
  -- A dump drives no motor, so that its frames can share the time of the start.
  let start ← IO.monoNanosNow
  let ending ← GameTrainer.runProgram args environment fun _ => start
  IO.print ending.printed.output
  IO.eprint ending.printed.progress
  return UInt32.ofNat ending.code
