import GameTrainer.CommandRun
import GameTrainer.Proofs.FileWrites

/-!
# Steps of a command

A command on a file tree is carried out from what was printed so far and the tree as it is. It
leaves its value or a complaint, what is printed then, and a tree. Main statements: in a command
of two parts the second goes on with what the first left, unless the first complained; and for
each part that commands are made of, what it leaves.
-/

namespace GameTrainer

namespace CommandM

/-- A command on a file tree. -/
abbrev OnTree (α : Type) : Type := CommandM (StateM FileTree) α

variable {α β : Type} (printed : Printed) (files : FileTree)

/-- What a command leaves: its value or a complaint, what is printed, and the files. -/
def on (command : OnTree α) : (Except Complaint α × Printed) × FileTree :=
  (command.run.run printed) files

/-- The second part of a command goes on with what the first part left. -/
theorem on_bind (first : OnTree α) (next : α → OnTree β) :
    on printed files (first >>= next) =
      match on printed files first with
      | ((.ok value, between), passed) => on between passed (next value)
      | ((.error complaint, between), passed) => ((.error complaint, between), passed) := by
  rw [on, on, ExceptT.run_bind, StateT.run_bind, bind_apply]
  generalize (first.run.run printed) files = left
  obtain ⟨⟨outcome, between⟩, passed⟩ := left
  cases outcome <;> rfl

/-! ## Parts of commands -/

/-- An operation on the files prints nothing. -/
theorem on_onFiles (action : StateM FileTree α) :
    on printed files (onFiles action) = ((.ok (action files).1, printed), (action files).2) := rfl

/-- Telling how the work goes only prints. -/
theorem on_tell (line : String) :
    on printed files (tell line) =
      ((.ok (), { printed with progress := printed.progress ++ line ++ "\n" }), files) := rfl

/-- A failed operation is complained about. -/
theorem on_check (outcome : Except Failure α) :
    on printed files (check outcome) =
      ((outcome.mapError Complaint.ofFailure, printed), files) := by
  cases outcome <;> rfl

/-- A dump is the content of its file. -/
theorem on_readDump (path : String) :
    on printed files (readDump path) =
      (((files.read path).mapError fun fault => ⟨"reading dump " ++ path, some fault.message⟩,
        printed), files) := by
  rw [readDump, on_bind, on_onFiles]
  dsimp only [FileAccess.readBytes]
  cases files.read path <;> rfl

/-- A dump is written as the content of its file. -/
theorem on_writeDump (path : String) (content : Bytes) :
    on printed files (writeDump path content) =
      match files.write path content with
      | .ok written => ((.ok (), printed), written)
      | .error fault =>
        ((.error ⟨"writing dump " ++ path, some fault.message⟩, printed), files) := by
  rw [writeDump, on_bind, on_onFiles]
  dsimp only [FileAccess.writeBytes]
  cases files.write path content <;> rfl

end CommandM

/-- A command that is carried out to its end tells how it ended, and leaves its files. -/
theorem Command.execute_eq (command : Command) (settings : Settings) (clock : Nat → Nat)
    (files : FileTree) :
    let left := CommandM.on {} files (command.run settings clock)
    (command.execute settings clock : StateM FileTree Ending) files =
      (Ending.ofResult left.1, left.2) := rfl

end GameTrainer
