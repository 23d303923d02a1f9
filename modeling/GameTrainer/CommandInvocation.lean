import GameTrainer.CommandLine
import GameTrainer.CommandRun

/-!
# Invocations

How a command line says which command to carry out, and with what. A settings
file is named in front of the command, or else by the environment.
-/

namespace GameTrainer

/-- A command with the settings file that it goes by. -/
structure Invocation where
  /-- The settings file. -/
  settingsFile : Option String
  /-- What is to be done. -/
  command : Command
  deriving DecidableEq, Repr

namespace Invocation

open CommandLine

/-- A number of 32 bits, which may be written with a sign. -/
def word? (text : String) : Option Nat :=
  match Numeral.integer? text.toList with
  | some (.ofNat n) => if n < UInt32.size then some n else none
  | _ => none

/-- A number of 64 bits. -/
def size? (text : String) : Option Nat :=
  Numeral.below? UInt64.size (Numeral.natural? 10 text.toList)

/-- A path, which is never empty. -/
def isPath (text : String) : Bool := !text.isEmpty

/-- The option that names the settings file. -/
def settingsForm : Form :=
  { options := [{ name := "config", letter := some 'c', accepts := isPath }]
    operandLimit := 0
    hasVersion := true }

/-- What the list command understands. -/
def listForm : Form :=
  { options := [{ name := "json", takesValue := false }]
    operandLimit := 1 }

/-- What the search command understands. -/
def searchForm : Form :=
  { options :=
      [{ name := "width", letter := some 'w', accepts := fun text => (word? text).isSome },
       { name := "big-endian", takesValue := false },
       { name := "frame", accepts := isPath },
       { name := "step", letter := some 's', repeats := true },
       { name := "limit", accepts := fun text => (size? text).isSome },
       { name := "promote", accepts := isPath }]
    operandLimit := 0 }

/-- What the apply command understands. -/
def applyForm : Form :=
  { options :=
      [{ name := "ram", accepts := isPath },
       { name := "frames", accepts := fun text => (word? text).isSome },
       { name := "output", letter := some 'o', accepts := isPath }]
    operandLimit := 1 }

/-- The operand that a command cannot do without. -/
def operand (words : Words) : Except Refusal String :=
  match words.operands with
  | word :: _ => .ok word
  | [] => .error .usage

/-- The value of an option that a command cannot do without. -/
def required (words : Words) (name : String) : Except Refusal String :=
  match words.value? name with
  | some value => .ok value
  | none => .error .usage

/-- The list command. -/
def readList (args : List String) : Except Refusal Command := do
  let words ← sortWords listForm args {}
  return .list (← operand words) (words.has "json")

/-- The search command; fifty matches are printed unless told otherwise. -/
def readSearch (args : List String) : Except Refusal Command := do
  let words ← sortWords searchForm args {}
  return .search ((words.value? "width").bind word?) (words.has "big-endian")
    (← required words "frame") (words.values "step")
    (((words.value? "limit").bind size?).getD 50) (words.value? "promote")

/-- The apply command; one frame is run unless told otherwise. -/
def readApply (args : List String) : Except Refusal Command := do
  let words ← sortWords applyForm args {}
  return .apply (← operand words) (← required words "ram")
    (((words.value? "frames").bind word?).getD 1) (words.value? "output")

/-- Asking for help on the commands with these names. -/
def readHelp (args : List String) : Refusal :=
  match args with
  | [] => .help
  | [name] => if name ∈ ["list", "search", "apply", "help"] then .help else .usage
  | _ => .usage

/-- The command with a name. -/
def readCommand (name : String) (args : List String) : Except Refusal Command :=
  match name with
  | "list" => readList args
  | "search" => readSearch args
  | "apply" => readApply args
  | "help" => .error (readHelp args)
  | _ => .error .usage

/-- Read a command line up to the command's name. -/
def readArguments : List String → Words → Except Refusal (Words × Command)
  | [], _ => .error .usage
  | word :: rest, words => do
    if word = "--" then .error .usage
    else if looksLikeOption word then
      match ← readOption settingsForm word, rest with
      | .complete option value, rest => readArguments rest (← addOption option value words)
      | .pending option, value :: rest =>
        if looksLikeOption value then .error .usage
        else readArguments rest (← addOption option value words)
      | .pending _, [] => .error .usage
    else return (words, ← readCommand word rest)

/-- Read a command line. The settings file of the environment counts where the
command line names none. -/
def read (args : List String) (environment : Option String) : Except Refusal Invocation := do
  let (words, command) ← readArguments args {}
  match words.value? "config", environment with
  | some file, _ => return ⟨some file, command⟩
  | none, some file => if isPath file then return ⟨some file, command⟩ else .error .usage
  | none, none => return ⟨none, command⟩

end Invocation

end GameTrainer
