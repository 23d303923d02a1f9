import GameTrainer.CheatFile
import GameTrainer.JsonForm

/-!
# What commands have in common

A command prints lines to two streams and may end with a complaint; what it
printed before stays printed. It stands in for an emulation core with memory
dumps on disk, one for each frame.
-/

namespace GameTrainer

/-- What a command printed. -/
structure Printed where
  /-- The results. -/
  output : String := ""
  /-- What tells how the work went. -/
  progress : String := ""
  deriving DecidableEq, Repr

/-- Why a command failed: what went wrong, and the cause behind it. -/
structure Complaint where
  /-- What went wrong. -/
  message : String
  /-- Its cause. -/
  cause : Option String := none
  deriving DecidableEq, Repr

namespace Complaint

/-- A failed operation as a complaint. -/
def ofFailure (failure : Failure) : Complaint :=
  ⟨failure.message, failure.cause?⟩

/-- A complaint as it is printed. -/
def report (complaint : Complaint) : String :=
  let cause :=
    match complaint.cause with
    | some cause => "\n\nCaused by:\n    " ++ cause
    | none => ""
  "Error: " ++ complaint.message ++ cause ++ "\n"

end Complaint

/-- A command: it works on files, prints, and may end with a complaint. -/
abbrev CommandM (m : Type → Type) := ExceptT Complaint (StateT Printed m)

namespace CommandM

variable {m : Type → Type} [Monad m]

/-- Print a line of results. -/
def printLine (line : String) : CommandM m Unit :=
  modifyThe Printed fun printed => { printed with output := printed.output ++ line ++ "\n" }

/-- Print a line that tells how the work goes. -/
def tell (line : String) : CommandM m Unit :=
  modifyThe Printed fun printed => { printed with progress := printed.progress ++ line ++ "\n" }

/-- End with a complaint where an operation failed. -/
def check {α : Type} : Except Failure α → CommandM m α
  | .ok value => pure value
  | .error failure => throw (Complaint.ofFailure failure)

/-- An operation on files within a command. -/
def onFiles {α : Type} (action : m α) : CommandM m α :=
  liftM (n := ExceptT Complaint (StateT Printed m)) (liftM (n := StateT Printed m) action)

/-- The bytes of a memory dump. -/
def readDump [FileAccess m] (path : String) : CommandM m Bytes := do
  match ← onFiles (FileAccess.readBytes path) with
  | .ok content => return content
  | .error fault => throw ⟨"reading dump " ++ path, some fault.message⟩

/-- Write a memory dump. -/
def writeDump [FileAccess m] (path : String) (content : Bytes) : CommandM m Unit := do
  match ← onFiles (FileAccess.writeBytes path content) with
  | .ok () => return
  | .error fault => throw ⟨"writing dump " ++ path, some fault.message⟩

end CommandM

end GameTrainer
