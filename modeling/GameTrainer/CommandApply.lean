import GameTrainer.CommandOutput
import GameTrainer.Trainer

/-!
# The apply command

Applies a cheat file to a memory dump for a number of frames, and writes the dump
back or to another file. The clock is read once in each frame. A dump has no
motors: rumble events go nowhere.
-/

namespace GameTrainer.ApplyCommand

/-- A trainer and memory after frames at some times, in order, with what they counted together. -/
def runFrames : (times : List Nat) → Trainer → CoreMemory → FrameTally →
    Trainer × CoreMemory × FrameTally
  | [], trainer, memory, total => (trainer, memory, total)
  | now :: later, trainer, memory, total =>
    let reply := trainer.runFrame memory now
    runFrames later reply.trainer reply.memory (total.add reply.tally)

/-- The line that tells what the frames did. -/
def summary (frames : Nat) (total : FrameTally) : String :=
  toString frames ++ " frames: " ++ toString total.evaluated ++ " evaluated, " ++
    toString total.skipped ++ " skipped, " ++ toString total.writes ++ " writes, " ++
    toString total.outOfRange ++ " out of range"

/-- Apply a cheat file to a dump, in one frame at each of some times. -/
def run {m : Type → Type} [Monad m] [FileAccess m] (settings : Settings) (file ram : String)
    (times : List Nat) (output : Option String) : CommandM m Unit := do
  let dump ← CommandM.readDump ram
  let trainer : Trainer := { settings := settings }
  let loaded ← CommandM.onFiles (trainer.load file false)
  let _ ← CommandM.check loaded.result
  let memory := CoreMemory.single settings.region dump
  let (_, memory, total) := runFrames times loaded.trainer memory {}
  let target := output.getD ram
  CommandM.writeDump target ((memory.get? settings.region).getD #[])
  CommandM.tell (summary times.length total)
  CommandM.tell ("Wrote " ++ target)

end GameTrainer.ApplyCommand
