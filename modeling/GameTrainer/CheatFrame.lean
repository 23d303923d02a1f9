import GameTrainer.CheatEntry

/-!
# Applying cheats to a frame

Once per frame the enabled patches of a cheat list are applied to memory in the
order of the list. A conditional that is false, or whose item lies outside
memory, makes the walk skip exactly the next enabled patch. A patch that is
switched off only gets its pending rumble pulse released, and codes for the core
are passed over.

A patch that moves on between two writes only ever moves forward, so its first
write outside memory ends it. A patch that stays in place is written once, with
the value that its writes add up to.
-/

namespace GameTrainer

/-- What was counted in one pass or over several. -/
structure FrameTally where
  /-- Patches whose item had a value. -/
  evaluated : Nat := 0
  /-- Patches passed over because of a conditional. -/
  skipped : Nat := 0
  /-- Items written. -/
  writes : Nat := 0
  /-- Patches whose item, and repetitions whose target, lay outside memory. -/
  outOfRange : Nat := 0
  deriving DecidableEq, Repr, Inhabited

/-- The sum of two counts. -/
def FrameTally.add (first second : FrameTally) : FrameTally where
  evaluated := first.evaluated + second.evaluated
  skipped := first.skipped + second.skipped
  writes := first.writes + second.writes
  outOfRange := first.outOfRange + second.outOfRange

namespace FrameTally

@[simp] theorem zero_add (tally : FrameTally) : FrameTally.add {} tally = tally := by
  simp only [add, Nat.zero_add]

@[simp] theorem add_zero (tally : FrameTally) : tally.add {} = tally := rfl

theorem add_assoc (first second third : FrameTally) :
    (first.add second).add third = first.add (second.add third) := by
  simp only [add, Nat.add_assoc]

end FrameTally

namespace Patch

/-- The number of writes that the patch asks for. -/
def writeCount (patch : Patch) : Nat :=
  max patch.repetition.count.toNat 1

/-- The operand of one of the writes, counted from zero. -/
def operandAt (patch : Patch) (i : Nat) : UInt32 :=
  patch.value + patch.repetition.addToValue * UInt32.ofNat i

/-- The item of one of the writes: so many items behind the first one, unless
their number is no word. -/
def target? (patch : Patch) (i : Nat) : Option ItemAddress :=
  if i = 0 then some patch.start
  else
    let items := patch.repetition.addToAddress.toNat * i
    if items < UInt32.size then patch.start.advance items patch.width else none

/-- The item of one of the writes, if it lies in a memory of the given size. -/
def reach? (patch : Patch) (size i : Nat) : Option ItemAddress :=
  (patch.target? i).filter fun address => decide (Bytes.Holds size address patch.width)

/-- Carry the operation out on an item that lies in memory. -/
def applyAt (patch : Patch) (memory : Bytes) (address : ItemAddress) (operand : UInt32) : Bytes :=
  let current := (memory.readItem address patch.width patch.bigEndian).getD 0
  memory.putItem address patch.width patch.bigEndian (patch.operation.combine current operand)

/-- What the writes of a patch did to memory. -/
structure WriteResult where
  /-- Memory afterwards. -/
  memory : Bytes
  /-- Items written. -/
  written : Nat
  /-- Writes that were left out because they lie outside memory. -/
  missed : Nat

/-- Carry out the writes from the `i`-th on, `left` of them at most. -/
def walk (patch : Patch) : (left i : Nat) → Bytes → WriteResult
  | 0, i, memory => ⟨memory, i, 0⟩
  | left + 1, i, memory =>
    match patch.reach? memory.size i with
    | some address => patch.walk left (i + 1) (patch.applyAt memory address (patch.operandAt i))
    | none => ⟨memory, i, left + 1⟩

/-- The value that so many writes to one item leave in it. -/
def foldedValue (patch : Patch) (count : Nat) (current : UInt32) : UInt32 :=
  let step := patch.repetition.addToValue
  match patch.operation with
  | .increase | .decrease =>
    let pairs := count * (count - 1) / 2
    patch.operation.combine current
      (patch.value * UInt32.ofNat count + step * UInt32.ofNat pairs)
  | _ => patch.value + step * UInt32.ofNat (count - 1)

/-- Carry out all writes of a patch whose first item has the value `current`. -/
def write (patch : Patch) (memory : Bytes) (current : UInt32) : WriteResult :=
  if patch.repetition.addToAddress = 0 then
    if Bytes.Holds memory.size patch.start patch.width then
      let value := patch.foldedValue patch.writeCount current
      ⟨memory.putItem patch.start patch.width patch.bigEndian value, 1, 0⟩
    else ⟨memory, 0, patch.writeCount⟩
  else patch.walk patch.writeCount 0 memory

/-- Setting an item does not look at its value. -/
theorem applyAt_of_set {patch : Patch} (hset : patch.operation = .set) (memory : Bytes)
    (address : ItemAddress) (operand : UInt32) :
    patch.applyAt memory address operand =
      memory.putItem address patch.width patch.bigEndian operand := by
  rw [applyAt, hset]
  rfl

theorem size_walk (patch : Patch) (left i : Nat) (memory : Bytes) :
    (patch.walk left i memory).memory.size = memory.size := by
  induction left generalizing i memory with
  | zero => rfl
  | succ left ih =>
    rw [walk]
    split
    · rw [ih, applyAt, Bytes.size_putItem]
    · rfl

/-- The writes of a patch keep the size of memory. -/
theorem size_write (patch : Patch) (memory : Bytes) (current : UInt32) :
    (patch.write memory current).memory.size = memory.size := by
  unfold write
  split
  · split
    · exact Bytes.size_putItem ..
    · rfl
  · exact patch.size_walk ..

end Patch

/-- What a pass hands on from one cheat to the next. -/
structure FramePass where
  /-- Memory as the cheats so far left it. -/
  memory : Bytes
  /-- The next enabled patch is to be skipped. -/
  skipNext : Bool := false
  /-- What was counted so far. -/
  tally : FrameTally := {}
  /-- The rumble events sent so far, in order. -/
  events : List RumbleEvent := []

namespace FramePass

/-- Apply one enabled patch whose item has a value. -/
def evaluate (pass : FramePass) (patch : Patch) (current : UInt32) (now : Nat) :
    Patch × FramePass :=
  let rumbled := patch.rumbleState.evaluate patch.rumble current now
  let events := pass.events ++ rumbled.2
  let tally := { pass.tally with evaluated := pass.tally.evaluated + 1 }
  let seen := { patch with rumbleState := rumbled.1 }
  match patch.operation.condition? with
  | some test =>
    (seen, { pass with skipNext := !test current patch.value, tally := tally, events := events })
  | none =>
    if patch.operation.writes then
      let result := patch.write pass.memory current
      (seen,
        { memory := result.memory, skipNext := false, events := events,
          tally := { tally with
            writes := tally.writes + result.written,
            outOfRange := tally.outOfRange + result.missed } })
    else (seen, { pass with tally := tally, events := events })

/-- Apply one enabled patch. -/
def applyPatch (pass : FramePass) (patch : Patch) (now : Nat) : Patch × FramePass :=
  if pass.skipNext then
    let skipped := pass.tally.skipped + 1
    (patch, { pass with skipNext := false, tally := { pass.tally with skipped := skipped } })
  else
    match pass.memory.readItem patch.start patch.width patch.bigEndian with
    | some current => pass.evaluate patch current now
    | none =>
      let outOfRange := pass.tally.outOfRange + 1
      (patch,
        { pass with
          skipNext := patch.operation.isConditional,
          tally := { pass.tally with outOfRange := outOfRange } })

/-- Pass over one entry of the list. -/
def applyCheat (pass : FramePass) (cheat : Cheat) (now : Nat) : Cheat × FramePass :=
  match cheat.effect with
  | .code _ => (cheat, pass)
  | .patch patch =>
    if cheat.enabled then
      let applied := pass.applyPatch patch now
      ({ cheat with effect := .patch applied.1 }, applied.2)
    else
      let released := patch.rumbleState.release patch.rumble.port
      ({ cheat with effect := .patch { patch with rumbleState := released.1 } },
        { pass with events := pass.events ++ released.2 })

/-- Pass over the entries of a list, in order. -/
def applyAll (pass : FramePass) (now : Nat) : List Cheat → List Cheat × FramePass
  | [] => ([], pass)
  | cheat :: rest =>
    let first := pass.applyCheat cheat now
    let others := first.2.applyAll now rest
    (first.1 :: others.1, others.2)

end FramePass

/-- Apply a cheat list to memory once, at a time. Gives the list with its rumble
states brought up to date, and what the pass did. -/
def applyFrame (cheats : List Cheat) (memory : Bytes) (now : Nat) : List Cheat × FramePass :=
  FramePass.applyAll { memory := memory } now cheats

namespace FramePass

theorem size_applyPatch (pass : FramePass) (patch : Patch) (now : Nat) :
    (pass.applyPatch patch now).2.memory.size = pass.memory.size := by
  unfold applyPatch
  split
  · rfl
  · split
    · unfold evaluate
      dsimp only
      split
      · rfl
      · split
        · exact patch.size_write ..
        · rfl
    · rfl

/-- A pass keeps the size of memory. -/
theorem size_applyAll (pass : FramePass) (now : Nat) (cheats : List Cheat) :
    (pass.applyAll now cheats).2.memory.size = pass.memory.size := by
  induction cheats generalizing pass with
  | nil => rfl
  | cons cheat rest ih =>
    rw [applyAll]
    dsimp only
    rw [ih]
    unfold applyCheat
    split
    · rfl
    · split
      · exact size_applyPatch ..
      · rfl

end FramePass

end GameTrainer
