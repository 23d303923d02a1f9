import GameTrainer.CommandInvocation
import GameTrainer.TomlForm

/-!
# Running the program

The words of a command line and a settings file come to a command and the settings
that it goes by. A settings file that cannot be read in full means the settings
that hold without one. Words that are not understood end the program with the
code two.
-/

namespace GameTrainer

namespace Settings

/-- The settings in a text. -/
def ofText? (text : String) : Option Settings :=
  (Toml.parse text).bind ofToml?

/-- The settings in a file. -/
def load {m : Type → Type} [Monad m] [FileAccess m] : Option String → m Settings
  | none => return {}
  | some path => do
    match ← readText path with
    | .ok text => return (ofText? text).getD {}
    | .error _ => return {}

end Settings

/-- The name and version of the program. -/
def versionText : String := "cheat 0.2.0\n"

/-- How to call the program. -/
def usageText : String :=
  "Usage: cheat [--config FILE] list FILE [--json]\n" ++
  "       cheat [--config FILE] search --frame FILE [--step QUERY:DUMP]... [--width BITS]\n" ++
  "             [--big-endian] [--limit N] [--promote FILE]\n" ++
  "       cheat [--config FILE] apply FILE --ram FILE [--frames N] [--output FILE]\n"

/-- The end of a run whose words name no command. -/
def Ending.ofRefusal : CommandLine.Refusal → Ending
  | .usage => ⟨2, { progress := usageText }⟩
  | .help => ⟨0, { output := usageText }⟩
  | .version => ⟨0, { output := versionText }⟩

/-- Run the program on its command line, the settings file of the environment and a clock. -/
def runProgram {m : Type → Type} [Monad m] [FileAccess m] (args : List String)
    (environment : Option String) (clock : Nat → Nat) : m Ending := do
  match Invocation.read args environment with
  | .error refusal => return .ofRefusal refusal
  | .ok invocation =>
    let settings ← Settings.load invocation.settingsFile
    invocation.command.execute settings clock

end GameTrainer
