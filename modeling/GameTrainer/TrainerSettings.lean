import GameTrainer.FilePath
import GameTrainer.MemoryRegion

/-!
# Settings

The settings of a trainer, and the place where it keeps the cheat file of a
game: a directory for each core below the database directory. Names of cores and
games lose the characters that cannot stand in file names, slashes among them.
-/

namespace GameTrainer

/-- What a user can choose. -/
structure Settings where
  /-- The width of items when a search begins. -/
  searchWidth : Width := .bits8
  /-- Searched items have the most significant byte first. -/
  searchBigEndian : Bool := false
  /-- The region that is searched and patched. -/
  region : Region := .systemRam
  /-- The directory of the cheat files of games. -/
  databaseDirectory : String := "cheats"
  /-- Hand codes to the core after loading. -/
  applyAfterLoad : Bool := false
  /-- Hand codes to the core after switching a cheat on or off. -/
  applyAfterToggle : Bool := false
  deriving DecidableEq, Repr, Inhabited

namespace Settings

/-- The characters that cannot stand in a file name. -/
def forbiddenInNames : List Char :=
  ['/', '\\', ':', '*', '?', '\x22', '<', '>', '|']

/-- A name with an underscore for each character that cannot stand in it. -/
def fileName (name : String) : String :=
  String.ofList (name.toList.map fun c => if c ∈ forbiddenInNames then '_' else c)

/-- The cheat file of a game below a database directory. -/
def gamePathIn (directory core game : String) : String :=
  FilePath.join (FilePath.join directory (fileName core)) (fileName game ++ ".cht")

/-- The cheat file of a game. -/
def gamePath (settings : Settings) (core game : String) : String :=
  gamePathIn settings.databaseDirectory core game

/-- No slash is left in a file name. -/
theorem slash_not_mem_fileName (name : String) : '/' ∉ (fileName name).toList := by
  simp only [fileName, String.toList_ofList, List.mem_map, not_exists, not_and]
  intro c _
  split
  · decide
  · rename_i hc
    intro h
    exact hc (by rw [h]; decide)

end Settings

end GameTrainer
