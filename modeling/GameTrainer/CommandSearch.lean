import GameTrainer.CommandOutput
import GameTrainer.Trainer

/-!
# The search command

Begins a search on a memory dump, narrows it by queries on further dumps, prints
the matches that are left, and may save them as cheats. All queries are read
before the first dump is.
-/

namespace GameTrainer.SearchCommand

/-- A query and the dump that it is asked of. -/
structure DumpStep where
  /-- The query. -/
  query : Query
  /-- The path of the dump. -/
  dump : String
  deriving DecidableEq, Repr

/-- Read a step, which is a query and a path with a colon between them. -/
def DumpStep.parse (text : String) : Except Complaint DumpStep :=
  match Text.splitFirst ':' text.toList with
  | none => .error { message := "search step '" ++ text ++ "' is not QUERY:DUMP" }
  | some (query, dump) =>
    match Query.parse (String.ofList query) with
    | .ok query => .ok ⟨query, String.ofList dump⟩
    | .error failure => .error (.ofFailure failure)

/-- The line for a match. -/
def line (view : MatchView) : String :=
  "#" ++ Numeral.alignLeft 5 (toString view.index) ++ " " ++
    Numeral.hexPadded 6 view.address.toNat ++ " mask " ++
    Numeral.hexPadded 2 view.bitMask.toNat ++ "  prev " ++ Numeral.hex view.previous.toNat ++
    "  curr " ++ Numeral.hex view.current.toNat

/-- The settings with the width and byte order of the command line. -/
def chooseItems (settings : Settings) (bits : Option Nat) (bigEndian : Bool) :
    Except Complaint Settings := do
  let width ←
    match bits with
    | none => .ok settings.searchWidth
    | some bits =>
      match Width.ofBits? bits with
      | some width => .ok width
      | none => .error { message := "unsupported item width " ++ toString bits ++ " bits" }
  return { settings with
    searchWidth := width
    searchBigEndian := bigEndian || settings.searchBigEndian }

/-- Narrow the search on one dump after the other. Gives the last one. -/
def narrow {m : Type → Type} [Monad m] [FileAccess m] :
    List DumpStep → Trainer → Bytes → CommandM m (Trainer × Bytes)
  | [], trainer, dump => return (trainer, dump)
  | step :: rest, trainer, _ => do
    let dump ← CommandM.readDump step.dump
    let memory := CoreMemory.single trainer.settings.region dump
    let reply := trainer.searchStep memory step.query
    let left ← CommandM.check reply.result
    CommandM.tell (step.query.render ++ " on " ++ step.dump ++ ": " ++ toString left ++ " matches")
    narrow rest reply.trainer dump

/-- Print the first matches, and how many more there are. -/
def printMatches {m : Type → Type} [Monad m] (search : Search) (memory : CoreMemory)
    (limit : Nat) : CommandM m Unit := do
  let current ← CommandM.check (search.snapshot.live memory)
  for view in (search.views current).take limit do
    CommandM.printLine (line view)
  if limit < search.count then
    CommandM.tell ("... " ++ toString (search.count - limit) ++ " more")

/-- Save the matches as cheats. -/
def promoteTo {m : Type → Type} [Monad m] [FileAccess m] (trainer : Trainer)
    (memory : CoreMemory) (path : String) : CommandM m Unit := do
  let reply := trainer.addMatches memory
  let added ← CommandM.check reply.result
  let saved ← CommandM.onFiles (reply.trainer.save path true)
  CommandM.check saved.result
  CommandM.tell ("Saved " ++ toString added ++ " cheats to " ++ path)

/-- Search over a series of dumps. -/
def run {m : Type → Type} [Monad m] [FileAccess m] (settings : Settings) (bits : Option Nat)
    (bigEndian : Bool) (frame : String) (steps : List String) (limit : Nat)
    (promote : Option String) : CommandM m Unit := do
  let settings ← liftExcept (chooseItems settings bits bigEndian)
  let steps ← liftExcept (steps.mapM DumpStep.parse)
  let first ← CommandM.readDump frame
  let trainer : Trainer := { settings := settings }
  let reply := trainer.beginSearch (CoreMemory.single settings.region first)
  let count ← CommandM.check reply.result
  CommandM.tell ("Search started on " ++ frame ++ " (" ++ toString first.size ++ " bytes, " ++
    settings.searchWidth.name ++ "): " ++ toString count ++ " candidates")
  let (trainer, dump) ← narrow steps reply.trainer first
  let memory := CoreMemory.single settings.region dump
  if let some search := trainer.search then
    printMatches search memory limit
  if let some path := promote then
    promoteTo trainer memory path
where
  /-- End with a complaint. -/
  liftExcept {α : Type} : Except Complaint α → CommandM m α
    | .ok value => pure value
    | .error complaint => throw complaint

end GameTrainer.SearchCommand
