import GameTrainer.CommandApply
import GameTrainer.CommandList
import GameTrainer.CommandSearch

/-!
# Commands

The three commands with what they can be given, and what it comes to when one is
carried out by given settings: what is printed, and the code that the program
ends with, zero for success and one for a command that failed.
-/

namespace GameTrainer

/-- A command with what it was given. -/
inductive Command where
  /-- Print the entries of a cheat file. -/
  | list (file : String) (json : Bool)
  /-- Narrow a search over a series of memory dumps. -/
  | search (bits : Option Nat) (bigEndian : Bool) (frame : String) (steps : List String)
    (limit : Nat) (promote : Option String)
  /-- Apply a cheat file to a memory dump. -/
  | apply (file ram : String) (frames : Nat) (output : Option String)
  deriving DecidableEq, Repr

/-- How a run of the program ended. -/
structure Ending where
  /-- The code that the program ends with. -/
  code : Nat
  /-- What it printed. -/
  printed : Printed
  deriving DecidableEq, Repr

/-- The end of a command that left its result and what it printed. -/
def Ending.ofResult : Except Complaint Unit × Printed → Ending
  | (.ok (), printed) => ⟨0, printed⟩
  | (.error complaint, printed) =>
    ⟨1, { printed with progress := printed.progress ++ complaint.report }⟩

namespace Command

/-- Carry a command out. A clock tells the time of each frame by its number. -/
def run {m : Type → Type} [Monad m] [FileAccess m] (settings : Settings) (clock : Nat → Nat) :
    Command → CommandM m Unit
  | .list file json => ListCommand.run file json
  | .search bits bigEndian frame steps limit promote =>
    SearchCommand.run settings bits bigEndian frame steps limit promote
  | .apply file ram frames output =>
    ApplyCommand.run settings file ram ((List.range frames).map clock) output

/-- Carry a command out to its end, with nothing printed before. -/
def execute {m : Type → Type} [Monad m] [FileAccess m] (command : Command) (settings : Settings)
    (clock : Nat → Nat) : m Ending := do
  return .ofResult (← ((command.run settings clock).run).run {})

end Command

end GameTrainer
