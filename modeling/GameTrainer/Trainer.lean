import GameTrainer.CheatFile
import GameTrainer.CheatFrame
import GameTrainer.TrainerSettings

/-!
# The trainer

A trainer holds settings, a cheat list, and a search when one is under way. Each
operation gives a reply: its result, the trainer that it leaves, and what is
asked of the host in order, which is to show a note or to hand codes to the core.
An operation that fails asks for one note that tells why.
-/

namespace GameTrainer

/-- A message shown on the screen. -/
structure Note where
  /-- The text. -/
  message : String
  /-- How urgent it is. -/
  priority : Nat := 1
  /-- For how many frames it is shown; three seconds at sixty frames each. -/
  duration : Nat := 180
  deriving DecidableEq, Repr

/-- What a trainer asks of its host. -/
inductive Request where
  /-- Show a note. -/
  | notify (note : Note)
  /-- Make the core forget its codes. -/
  | resetCore
  /-- Give the core a code at a place of its own list. -/
  | setCoreCode (index : Nat) (enabled : Bool) (code : String)
  deriving DecidableEq, Repr

/-- The codes that a core was given. -/
structure CoreCodes where
  /-- How often it was made to forget its codes. -/
  resets : Nat := 0
  /-- The codes since then, with their places and whether they are on. -/
  codes : List (Nat × Bool × String) := []
  deriving DecidableEq, Repr

namespace CoreCodes

/-- The codes of a core after a request; notes do not reach the core. -/
def receive (core : CoreCodes) : Request → CoreCodes
  | .notify _ => core
  | .resetCore => ⟨core.resets + 1, []⟩
  | .setCoreCode index enabled code =>
    { core with codes := core.codes ++ [(index, enabled, code)] }

/-- The codes of a core after requests, in order. -/
def receiveAll (core : CoreCodes) (requests : List Request) : CoreCodes :=
  requests.foldl receive core

end CoreCodes

/-- The notes among requests, in order. -/
def notes (requests : List Request) : List Note :=
  requests.filterMap fun
    | .notify note => some note
    | _ => none

/-- A trainer. -/
structure Trainer where
  /-- What the user chose. -/
  settings : Settings := {}
  /-- The cheats. -/
  cheats : CheatList := {}
  /-- The search under way. -/
  search : Option Search := none
  deriving DecidableEq, Repr

/-- What an operation of a trainer leads to. -/
structure Reply (α : Type) where
  /-- What it gives, or why it failed. -/
  result : Except Failure α
  /-- The trainer afterwards. -/
  trainer : Trainer
  /-- What is asked of the host, in order. -/
  requests : List Request

/-- What one frame leads to. -/
structure FrameReply where
  /-- What was counted. -/
  tally : FrameTally
  /-- The trainer afterwards. -/
  trainer : Trainer
  /-- Memory afterwards. -/
  memory : CoreMemory
  /-- The rumble events, in order. -/
  events : List RumbleEvent

namespace Trainer

/-- A request to show a message. -/
def say (message : String) : Request :=
  .notify { message := message }

/-- The reply to what an operation led to: the trainer that it left, with what is asked of the host
after a success, or with a note that tells why it failed. -/
def report {α : Type} (outcome : Outcome Trainer α) (requests : α → List Request) : Reply α :=
  match outcome with
  | (.ok value, left) => ⟨.ok value, left, requests value⟩
  | (.error failure, left) => ⟨.error failure, left, [say failure.message]⟩

@[simp] theorem result_report {α : Type} (outcome : Outcome Trainer α)
    (requests : α → List Request) : (report outcome requests).result = outcome.1 := by
  obtain ⟨_ | _, _⟩ := outcome <;> rfl

@[simp] theorem trainer_report {α : Type} (outcome : Outcome Trainer α)
    (requests : α → List Request) : (report outcome requests).trainer = outcome.2 := by
  obtain ⟨_ | _, _⟩ := outcome <;> rfl

/-- What is done with the search under way; without one nothing is done. -/
def withSearch {α : Type} (trainer : Trainer) (action : Search → Outcome Trainer α) :
    Outcome Trainer α :=
  match trainer.search with
  | some search => action search
  | none => (.error .searchNotInitialized, trainer)

/-- What is done with the search under way and the bytes that its region has now; where the region
is gone or has another size nothing is done. -/
def withLiveSearch {α : Type} (trainer : Trainer) (memory : CoreMemory)
    (action : Search → Bytes → Outcome Trainer α) : Outcome Trainer α :=
  trainer.withSearch fun search =>
    match search.snapshot.live memory with
    | .ok current => action search current
    | .error failure => (.error failure, trainer)

/-- Give up the search. -/
def endSearch (trainer : Trainer) : Trainer :=
  { trainer with search := none }

/-- Give up any search and begin a new one. Gives the number of matches. -/
def beginSearch (trainer : Trainer) (memory : CoreMemory) : Reply Nat :=
  let cleared := trainer.endSearch
  let settings := trainer.settings
  let outcome : Outcome Trainer Nat :=
    match Search.begin memory settings.region settings.searchWidth settings.searchBigEndian with
    | .ok search => (.ok search.count, { cleared with search := some search })
    | .error failure => (.error failure, cleared)
  report outcome fun count => [say ("Cheat search started: " ++ toString count ++ " matches")]

/-- Narrow the search by a query. Gives the number of matches left. -/
def searchStep (trainer : Trainer) (memory : CoreMemory) (query : Query) : Reply Nat :=
  let outcome := trainer.withSearch fun search =>
    let (result, left) := search.step memory query
    (result, { trainer with search := some left })
  report outcome fun count =>
    [say ("Search " ++ query.render ++ ": " ++ toString count ++ " matches")]

/-- Add every match to the cheat list, or none. Gives the number of matches. -/
def addMatches (trainer : Trainer) (memory : CoreMemory) : Reply Nat :=
  let outcome := trainer.withLiveSearch memory fun search current =>
    let (result, cheats) := trainer.cheats.addMatches search current
    (result, { trainer with cheats := cheats })
  report outcome fun added =>
    [say ("Added " ++ toString added ++ " matches to the cheat list")]

/-- Look at, add, or rule out one match. -/
def matchAction (trainer : Trainer) (memory : CoreMemory) (action : MatchAction)
    (index : Nat) : Reply MatchView :=
  let outcome := trainer.withLiveSearch memory fun search current =>
    let (result, cheats, left) := trainer.cheats.act search current action index
    (result, { trainer with cheats := cheats, search := some left })
  report outcome fun _ => []

/-- Apply the patches to the region of the settings, if the core exposes it. -/
def runFrame (trainer : Trainer) (memory : CoreMemory) (now : Nat) : FrameReply :=
  match memory.get? trainer.settings.region with
  | none => ⟨{}, trainer, memory, []⟩
  | some content =>
    let applied := applyFrame trainer.cheats.entries content now
    { tally := applied.2.tally
      trainer := { trainer with cheats := { trainer.cheats with entries := applied.1 } }
      memory := memory.set trainer.settings.region applied.2.memory
      events := applied.2.events }

/-- The requests that hand every enabled code to the core, at places without
gaps, and tell how many they are. -/
def coreRequests (cheats : CheatList) : List Request :=
  let codes := cheats.coreCodes
  .resetCore :: codes.mapIdx (fun index code => .setCoreCode index true code) ++
    [say ("Applied " ++ toString codes.length ++ " core cheats")]

/-- Hand every enabled code to the core. Gives their number. -/
def applyCoreCheats (trainer : Trainer) : Reply Nat :=
  ⟨.ok trainer.cheats.coreCodes.length, trainer, coreRequests trainer.cheats⟩

/-- Switch a cheat on or off. -/
def toggle (trainer : Trainer) (index : Nat) : Reply Bool :=
  let (result, cheats) := trainer.cheats.toggle index
  report (result, { trainer with cheats := cheats }) fun enabled =>
    let label := ((cheats.get? index).map Cheat.label).getD ""
    let state := if enabled then "ON" else "OFF"
    say ("Cheat #" ++ toString index ++ " [" ++ state ++ "]: " ++ label) ::
      if trainer.settings.applyAfterToggle then coreRequests cheats else []

/-- Load a cheat file. Gives the number of its cheats. -/
def load {m : Type → Type} [Monad m] [FileAccess m] (trainer : Trainer) (path : String)
    (append : Bool) : m (Reply Nat) := do
  let (result, cheats) ← trainer.cheats.load path append
  return report (result, { trainer with cheats := cheats }) fun count =>
    say ("Loaded " ++ toString count ++ " cheats") ::
      if trainer.settings.applyAfterLoad then coreRequests cheats else []

/-- Save the cheat list. -/
def save {m : Type → Type} [Monad m] [FileAccess m] (trainer : Trainer) (path : String)
    (overwrite : Bool) : m (Reply Unit) := do
  return report (← trainer.cheats.save path overwrite, trainer) fun () =>
    [say ("Saved " ++ toString trainer.cheats.size ++ " cheats")]

/-- Exchange the cheat list for the one of a game. -/
def loadGame {m : Type → Type} [Monad m] [FileAccess m] (trainer : Trainer)
    (core game : String) : m (Reply Nat) :=
  trainer.load (trainer.settings.gamePath core game) false

/-- Save the cheat list as the one of a game. -/
def saveGame {m : Type → Type} [Monad m] [FileAccess m] (trainer : Trainer)
    (core game : String) : m (Reply Unit) :=
  trainer.save (trainer.settings.gamePath core game) true

end Trainer

end GameTrainer
