import GameTrainer.TextNumeral
import GameTrainer.TextSplit

/-!
# Command lines

The words of a command line are options, which begin with a hyphen, and
operands. An option is named in full behind two hyphens or by one letter behind
one. Its value is the rest of the word, behind an equals sign where the name is
in full, or else the next word, unless that one looks like an option too. Behind
a bare `--` every word is an operand.

Words are taken in order and the first thing that is wrong, or the first request
for help, decides.
-/

namespace GameTrainer.CommandLine

/-- Why no command is carried out. -/
inductive Refusal where
  /-- The words are not understood. -/
  | usage
  /-- The words ask for help. -/
  | help
  /-- The words ask for the version. -/
  | version
  deriving DecidableEq, Repr

/-- An option that a command understands. -/
structure OptionForm where
  /-- The full name. -/
  name : String
  /-- The letter that names it too. -/
  letter : Option Char := none
  /-- A value follows it. -/
  takesValue : Bool := true
  /-- It may be given more than once. -/
  repeats : Bool := false
  /-- The values that are understood. -/
  accepts : String → Bool := fun _ => true

/-- What a command understands. -/
structure Form where
  /-- Its options, help apart. -/
  options : List OptionForm
  /-- The greatest number of operands. -/
  operandLimit : Nat
  /-- Whether it can be asked for the version. -/
  hasVersion : Bool := false

/-- The words of a command line, sorted. -/
structure Words where
  /-- The options with their values, in order; empty where none is taken. -/
  options : List (String × String) := []
  /-- The operands, in order. -/
  operands : List String := []
  deriving DecidableEq, Repr

namespace Words

/-- All values of an option, in order. -/
def values (words : Words) (name : String) : List String :=
  words.options.filterMap fun option => if option.1 = name then some option.2 else none

/-- The first value of an option. -/
def value? (words : Words) (name : String) : Option String :=
  (words.values name).head?

/-- An option is there. -/
def has (words : Words) (name : String) : Bool :=
  (words.value? name).isSome

end Words

/-- Add an option, unless its value is not understood or it comes once too often. -/
def addOption (form : OptionForm) (value : String) (words : Words) : Except Refusal Words :=
  if (words.has form.name && !form.repeats) || !form.accepts value then .error .usage
  else .ok { words with options := words.options ++ [(form.name, value)] }

/-- Add an operand, unless it is empty or one too many. -/
def addOperand (form : Form) (word : String) (words : Words) : Except Refusal Words :=
  if word.isEmpty || form.operandLimit ≤ words.operands.length then .error .usage
  else .ok { words with operands := words.operands ++ [word] }

/-- The word begins with a hyphen and goes on. -/
def looksLikeOption (word : String) : Bool :=
  word.toList.head? = some '-' && 1 < word.length

/-- What a word that looks like an option says. -/
inductive OptionWord where
  /-- An option with its value in the same word, or one that takes none. -/
  | complete (form : OptionForm) (value : String)
  /-- An option whose value is the next word. -/
  | pending (form : OptionForm)

/-- Read an option that is named in full, behind its hyphens. -/
def readName (form : Form) (text : List Char) : Except Refusal OptionWord :=
  let (name, attached) :=
    match Text.splitFirst '=' text with
    | some (name, value) => (String.ofList name, some (String.ofList value))
    | none => (String.ofList text, none)
  match form.options.find? (·.name = name), attached with
  | some option, some value =>
    if option.takesValue then .ok (.complete option value) else .error .usage
  | some option, none =>
    if option.takesValue then .ok (.pending option) else .ok (.complete option "")
  | none, none =>
    if name = "help" then .error .help
    else if name = "version" && form.hasVersion then .error .version
    else .error .usage
  | none, some _ => .error .usage

/-- Read an option that is named by a letter, behind its hyphen. -/
def readLetter (form : Form) (letter : Char) (text : List Char) : Except Refusal OptionWord :=
  match form.options.find? (·.letter = some letter) with
  | some option =>
    match text with
    | [] => .ok (.pending option)
    | '=' :: value => .ok (.complete option (String.ofList value))
    | value => .ok (.complete option (String.ofList value))
  | none =>
    if letter = 'h' then .error .help
    else if letter = 'V' && form.hasVersion then .error .version
    else .error .usage

/-- Read a word that looks like an option. -/
def readOption (form : Form) (word : String) : Except Refusal OptionWord :=
  match word.toList with
  | '-' :: '-' :: text => readName form text
  | '-' :: letter :: text => readLetter form letter text
  | _ => .error .usage

/-- Sort the words of a command behind those that are sorted already. -/
def sortWords (form : Form) : List String → Words → Except Refusal Words
  | [], words => .ok words
  | word :: rest, words => do
    if word = "--" then rest.foldlM (fun words word => addOperand form word words) words
    else if looksLikeOption word then
      match ← readOption form word, rest with
      | .complete option value, rest => sortWords form rest (← addOption option value words)
      | .pending option, value :: rest =>
        if looksLikeOption value then .error .usage
        else sortWords form rest (← addOption option value words)
      | .pending _, [] => .error .usage
    else sortWords form rest (← addOperand form word words)

end GameTrainer.CommandLine
