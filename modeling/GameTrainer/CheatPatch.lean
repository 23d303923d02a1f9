import GameTrainer.ItemAddress
import GameTrainer.RumblePulse
import GameTrainer.SearchSession

/-!
# Patches

A patch is a cheat that this library applies itself: an operation on the item at
an address, repeated over further items if it says so, with the rumble that
watches the item. Conditional operations write nothing and decide whether the
next cheat runs.
-/

namespace GameTrainer

/-- What a patch does to its item at each pass. -/
inductive Operation where
  | disabled | set | increase | decrease
  | runNextIfEq | runNextIfNeq | runNextIfLt | runNextIfGt
  deriving DecidableEq, Repr, Inhabited

namespace Operation

/-- Every operation, at the place of its code. -/
def all : List Operation :=
  [disabled, set, increase, decrease, runNextIfEq, runNextIfNeq, runNextIfLt, runNextIfGt]

/-- The numeric code of an operation. -/
def code : Operation → Nat
  | disabled => 0 | set => 1 | increase => 2 | decrease => 3
  | runNextIfEq => 4 | runNextIfNeq => 5 | runNextIfLt => 6 | runNextIfGt => 7

/-- The operation with a numeric code. -/
def ofCode? (code : Nat) : Option Operation := all[code]?

@[simp] theorem ofCode?_code (operation : Operation) :
    ofCode? operation.code = some operation := by
  cases operation <;> rfl

/-- The name of an operation in listings. -/
def name : Operation → String
  | disabled => "Disabled" | set => "Set" | increase => "Increase" | decrease => "Decrease"
  | runNextIfEq => "RunNextIfEq" | runNextIfNeq => "RunNextIfNeq"
  | runNextIfLt => "RunNextIfLt" | runNextIfGt => "RunNextIfGt"

/-- The test that a conditional operation makes on its item and its operand. -/
def condition? : Operation → Option (UInt32 → UInt32 → Bool)
  | runNextIfEq => some fun current value => current == value
  | runNextIfNeq => some fun current value => current != value
  | runNextIfLt => some fun current value => current < value
  | runNextIfGt => some fun current value => value < current
  | _ => none

/-- The operation decides about the next cheat instead of writing. -/
def isConditional (operation : Operation) : Bool :=
  operation.condition?.isSome

/-- The operation writes its item. -/
def writes : Operation → Bool
  | set | increase | decrease => true
  | _ => false

/-- The value that an item gets from an operation with an operand. -/
def combine (operation : Operation) (current operand : UInt32) : UInt32 :=
  match operation with
  | increase => current + operand
  | decrease => current - operand
  | _ => operand

end Operation

/-- How often a patch writes, and how it moves on between two writes. -/
structure Repetition where
  /-- The number of writes; none counts as one. -/
  count : UInt32 := 1
  /-- What the operand grows by from one write to the next. -/
  addToValue : UInt32 := 0
  /-- The number of items from one write to the next. -/
  addToAddress : UInt32 := 1
  deriving DecidableEq, Repr, Inhabited

/-- A cheat on an item of memory. -/
structure Patch where
  /-- Offset of the item's first byte. -/
  address : UInt32 := 0
  /-- The bits of that byte that the item takes, at widths below one byte. -/
  bitMask : UInt32 := 0xFF
  /-- The width of the item. -/
  width : Width := .bits8
  /-- What is done to the item. -/
  operation : Operation := .set
  /-- The operand. -/
  value : UInt32 := 0
  /-- Items of several bytes have the most significant byte first. -/
  bigEndian : Bool := false
  /-- How the operation is repeated. -/
  repetition : Repetition := {}
  /-- The rumble that watches the item. -/
  rumble : RumbleConfig := {}
  /-- What the rumble remembers; never saved. -/
  rumbleState : RumbleState := {}
  deriving DecidableEq, Repr, Inhabited

namespace Patch

/-- The patch that pins a search match to the value it has now. -/
def ofMatch (view : MatchView) (width : Width) (bigEndian : Bool) : Patch :=
  { address := view.address, bitMask := view.bitMask, width := width,
    operation := .set, value := view.current, bigEndian := bigEndian }

/-- Begin a new rumble warm-up. -/
def restartRumble (patch : Patch) : Patch :=
  { patch with rumbleState := patch.rumbleState.restart }

/-- The place of the patch's item. -/
def start (patch : Patch) : ItemAddress :=
  ItemAddress.ofMask patch.address patch.bitMask patch.width

end Patch

end GameTrainer
