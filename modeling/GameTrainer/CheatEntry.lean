import GameTrainer.CheatPatch

/-!
# Cheat entries

An entry of a cheat list is either a code that the emulation core understands by
itself, or a patch. The two handlers have numeric codes.
-/

namespace GameTrainer

/-- Who carries a cheat out. -/
inductive Handler where
  | core | trainer
  deriving DecidableEq, Repr, Inhabited

namespace Handler

/-- Every handler, at the place of its code. -/
def all : List Handler := [core, trainer]

/-- The numeric code of a handler. -/
def code : Handler → Nat
  | core => 0 | trainer => 1

/-- The handler with a numeric code. -/
def ofCode? (code : Nat) : Option Handler := all[code]?

@[simp] theorem ofCode?_code (handler : Handler) : ofCode? handler.code = some handler := by
  cases handler <;> rfl

/-- The name of a handler, which also names the kind of its cheats. -/
def name : Handler → String
  | core => "CoreOpaque" | trainer => "EngineApplied"

end Handler

/-- What a cheat does. -/
inductive Effect where
  /-- A code that is handed to the core as it stands. -/
  | code (text : String)
  /-- A patch that is applied at each frame. -/
  | patch (patch : Patch)
  deriving DecidableEq, Repr

/-- One entry of a cheat list. -/
structure Cheat where
  /-- The place of the entry in its list. -/
  index : UInt32 := 0
  /-- What a user calls it. -/
  description : Option String := none
  /-- Whether it is switched on. -/
  enabled : Bool := false
  /-- What it does. -/
  effect : Effect
  deriving DecidableEq, Repr

namespace Cheat

/-- An empty entry for a handler. -/
def blank (index : UInt32) : Handler → Cheat
  | .core => { index := index, effect := .code "" }
  | .trainer => { index := index, effect := .patch {} }

/-- Who carries the cheat out. -/
def handler (cheat : Cheat) : Handler :=
  match cheat.effect with
  | .code _ => .core
  | .patch _ => .trainer

/-- The patch of a cheat that is applied here. -/
def patch? (cheat : Cheat) : Option Patch :=
  match cheat.effect with
  | .code _ => none
  | .patch patch => some patch

/-- The code of a cheat that is left to the core. -/
def code? (cheat : Cheat) : Option String :=
  match cheat.effect with
  | .code text => some text
  | .patch _ => none

/-- The cheat with its patch changed, if it has one. -/
def mapPatch (change : Patch → Patch) (cheat : Cheat) : Cheat :=
  match cheat.effect with
  | .code _ => cheat
  | .patch patch => { cheat with effect := .patch (change patch) }

/-- Begin a new rumble warm-up. -/
def restartRumble (cheat : Cheat) : Cheat :=
  cheat.mapPatch Patch.restartRumble

/-- What listings and messages call the cheat: its description, or its code
where the description is missing or empty. -/
def label (cheat : Cheat) : String :=
  let fallback := cheat.code?.getD "(no description)"
  match cheat.description with
  | some text => if text.isEmpty then fallback else text
  | none => fallback

/-- A new disabled entry that applies a patch. -/
def ofPatch (patch : Patch) : Cheat :=
  { effect := .patch patch }

end Cheat

end GameTrainer
