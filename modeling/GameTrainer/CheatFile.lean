import GameTrainer.CheatList
import GameTrainer.CheatRecord
import GameTrainer.FileTree

/-!
# Cheat files

Loading exchanges the entries of a list for those of a file, or adds them behind
its own; the file is read in full before the list is changed. Saving writes the
records of a list into a new document, or into the one that the file already
holds.
-/

namespace GameTrainer.CheatList

/-- Put the cheats of a document in place of the entries or behind them. Gives their number. -/
def loadDocument (list : CheatList) (document : Document) (append : Bool) :
    Outcome CheatList Nat :=
  match CheatRecord.readAll document with
  | .ok cheats => (.ok cheats.length, if append then list.append cheats else list.replace cheats)
  | .error failure => (.error failure, list)

/-- The text of a cheat file: the records of the list put into a document. -/
def fileText (list : CheatList) (document : Document) : String :=
  (CheatRecord.writeAll document list.entries).render

/-- The document in a file. -/
def readDocument {m : Type → Type} [Monad m] [FileAccess m] (path : String) :
    m (Except Failure Document) := do
  return (← readText path).mapError .file |>.map Document.parse

/-- Load a cheat file. Gives the number of its cheats. -/
def load {m : Type → Type} [Monad m] [FileAccess m] (list : CheatList) (path : String)
    (append : Bool) : m (Outcome CheatList Nat) := do
  match ← readDocument path with
  | .ok document => return list.loadDocument document append
  | .error failure => return (.error failure, list)

/-- The document that saving starts from: an empty one, or the one that is there
when it is not to be overwritten. -/
def baseDocument {m : Type → Type} [Monad m] [FileAccess m] (path : String)
    (overwrite : Bool) : m (Except Failure Document) := do
  if overwrite then return .ok {}
  else if ← FileAccess.fileExists path then readDocument path
  else return .ok {}

/-- Save a list as a cheat file, making the directories that lead to it. -/
def save {m : Type → Type} [Monad m] [FileAccess m] (list : CheatList) (path : String)
    (overwrite : Bool) : m (Except Failure Unit) := do
  match ← baseDocument path overwrite with
  | .error failure => return .error failure
  | .ok document =>
    match ← FileAccess.createParents path with
    | .error fault => return .error (.file fault)
    | .ok () =>
      let text := list.fileText document
      return (← FileAccess.writeBytes path (encodeText text)).mapError .file

end GameTrainer.CheatList
