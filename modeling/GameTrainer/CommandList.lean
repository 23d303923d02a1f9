import GameTrainer.CommandOutput

/-!
# The list command

Prints the entries of a cheat file, as lines for a reader or as JSON.
-/

namespace GameTrainer.ListCommand

/-- Green and bold text. -/
def highlighted (text : String) : String :=
  "\x1b[1m\x1b[32m" ++ text ++ "\x1b[39m\x1b[0m"

/-- Dim text. -/
def dimmed (text : String) : String :=
  "\x1b[2m" ++ text ++ "\x1b[0m"

/-- What a cheat does, in a line. -/
def detail : Effect → String
  | .code text => "core code " ++ text
  | .patch content =>
    content.operation.name ++ " " ++ Numeral.hex content.address.toNat ++ " (" ++
      content.width.name ++ ", mask " ++ Numeral.hexPadded 2 content.bitMask.toNat ++
      ") value " ++ Numeral.hex content.value.toNat

/-- The line for a cheat. -/
def line (cheat : Cheat) : String :=
  let marker := if cheat.enabled then highlighted "ON " else dimmed "OFF"
  Numeral.alignRight 3 (toString cheat.index.toNat) ++ " [" ++ marker ++ "] " ++ cheat.label ++
    "  " ++ detail cheat.effect

/-- Print the entries of a cheat file. -/
def run {m : Type → Type} [Monad m] [FileAccess m] (file : String) (json : Bool) :
    CommandM m Unit := do
  let (result, cheats) ← CommandM.onFiles (CheatList.load {} file false)
  let _ ← CommandM.check result
  if json then
    CommandM.printLine (Json.render 0 (.array (cheats.entries.map Cheat.toJson)))
  else
    CommandM.tell (toString cheats.size ++ " cheats (" ++ toString cheats.enabledCount ++
      " enabled) in " ++ file)
    for cheat in cheats.entries do
      CommandM.printLine (line cheat)

end GameTrainer.ListCommand
