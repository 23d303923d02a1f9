import Mathlib.Data.Nat.Choose.Basic
import GameTrainer.Proofs.WriteTargets

/-!
# Writes that stay in place

A patch that stays in place between two writes writes its item once, with the value that its
writes add up to. Main statement: this leaves the memory that its writes leave when they are
carried out one after the other, where each reads the item, combines the value with its own
operand and puts the result back into the item, which cuts it.
-/

namespace GameTrainer

namespace Patch

variable {patch : Patch}

/-- Carry out so many writes of a patch to its first item, one after the other. -/
def writeInPlace? (patch : Patch) (memory : Bytes) (count : Nat) : Option Bytes :=
  (List.range count).foldlM
    (fun memory i => patch.writeAt? memory patch.start (patch.operandAt i)) memory

theorem writeInPlace?_succ (memory : Bytes) (count : Nat) :
    patch.writeInPlace? memory (count + 1) =
      (patch.writeInPlace? memory count).bind fun written =>
        patch.writeAt? written patch.start (patch.operandAt count) := by
  rw [writeInPlace?, List.range_succ, List.foldlM_append]
  simp only [List.foldlM_cons, List.foldlM_nil, bind_pure]
  rfl

/-- One write adds up to itself. -/
theorem foldedValue_one (current : UInt32) :
    patch.foldedValue 1 current = patch.operation.combine current (patch.operandAt 0) := by
  rw [foldedValue, operandAt]
  cases patch.operation with
  | increase | decrease =>
    dsimp only
    rw [show UInt32.ofNat 1 = 1 from rfl, UInt32.mul_one]
  | _ => rfl

/-- One more write is combined with what the writes before it add up to. The operands of the
first so many writes hold the step as often as there are pairs of these writes. -/
theorem combine_foldedValue (count : Nat) (current : UInt32) :
    patch.operation.combine (patch.foldedValue count current) (patch.operandAt count) =
      patch.foldedValue (count + 1) current := by
  have hpairs : UInt32.ofNat ((count + 1) * (count + 1 - 1) / 2) =
      UInt32.ofNat (count * (count - 1) / 2) + UInt32.ofNat count := by
    rw [Nat.triangle_succ, UInt32.ofNat_add]
  have hcount : UInt32.ofNat (count + 1) = UInt32.ofNat count + 1 := UInt32.ofNat_add count 1
  rw [foldedValue, foldedValue, operandAt]
  cases patch.operation with
  | increase =>
    dsimp only [Operation.combine]
    rw [hpairs, hcount]
    grind
  | decrease =>
    dsimp only [Operation.combine]
    rw [hpairs, hcount]
    grind
  | _ => rfl

/-- Writes to an item in memory, one after the other, leave in it what they add up to. -/
theorem writeInPlace?_eq {memory : Bytes} {current : UInt32}
    (h : memory.readItem patch.start patch.width patch.bigEndian = some current) (count : Nat) :
    patch.writeInPlace? memory (count + 1) =
      some (memory.putItem patch.start patch.width patch.bigEndian
        (patch.foldedValue (count + 1) current)) := by
  have hbit : patch.start.bit < 32 := Nat.lt_trans patch.isProper_start.bit_lt (by decide)
  have hholds := Bytes.holds_of_readItem h
  induction count with
  | zero =>
    have hempty : patch.writeInPlace? memory 0 = some memory := rfl
    rw [writeInPlace?_succ, hempty, Option.bind_some, writeAt?_of_holds _ hholds, applyAt, h,
      Option.getD_some, foldedValue_one]
  | succ count ih =>
    -- The next write finds the sum of those before it only as far as the item has room.
    rw [writeInPlace?_succ, ih, Option.bind_some,
      writeAt?_of_holds _ (by rwa [Bytes.size_putItem]), applyAt,
      Bytes.readItem_putItem _ hbit hholds, Option.getD_some,
      Bytes.putItem_putItem _ hbit hholds, ← combine_foldedValue (count + 1)]
    exact congrArg some
      (Bytes.putItem_congr _ hbit hholds (patch.start.cut_combine_cut _ _ _))

/-- A patch that stays in place on an item in memory leaves what its writes leave when they are
carried out one after the other, each of them in memory, and counts one write and no miss. -/
theorem folded_write_is_every_write (hstays : patch.repetition.addToAddress = 0)
    {memory : Bytes} {current : UInt32}
    (hcurrent : memory.readItem patch.start patch.width patch.bigEndian = some current) :
    let result := patch.write memory current
    patch.writeInPlace? memory patch.writeCount = some result.memory ∧
      result.written = 1 ∧ result.missed = 0 := by
  intro result
  have hholds := Bytes.holds_of_readItem hcurrent
  have hresult : result = ⟨memory.putItem patch.start patch.width patch.bigEndian
      (patch.foldedValue patch.writeCount current), 1, 0⟩ := by
    dsimp only [result]
    rw [write, if_pos hstays, if_pos hholds]
  have hcount : patch.writeCount = patch.writeCount - 1 + 1 :=
    (Nat.sub_add_cancel patch.writeCount_pos).symm
  rw [hresult]
  refine ⟨?_, rfl, rfl⟩
  rw [hcount]
  exact writeInPlace?_eq hcurrent _

/-- The operands of 40001 writes to an item of four bits add up to more than a word holds. The
item begins two bits before the end of its byte. -/
theorem folded_write_is_every_write_of_many :
    let patch : Patch :=
      { bitMask := 0x40, width := .bits4, operation := .decrease, value := 7,
        repetition := { count := 40001, addToValue := 0x80000001, addToAddress := 0 } }
    let memory : Bytes := #[0x9C]
    let result := patch.write memory 2
    patch.repetition.addToAddress = 0 ∧ memory.readItem patch.start .bits4 false = some 2 ∧
      patch.writeInPlace? memory patch.writeCount = some result.memory ∧
      result.memory = #[0xDC] ∧ result.written = 1 ∧ result.missed = 0 := by
  intro patch memory result
  have hstays : patch.repetition.addToAddress = 0 := by decide
  have hcurrent : memory.readItem patch.start .bits4 false = some 2 := by decide
  obtain ⟨hsteps, hwritten, hmissed⟩ := folded_write_is_every_write hstays hcurrent
  exact ⟨hstays, hcurrent, hsteps, by decide, hwritten, hmissed⟩

end Patch

end GameTrainer
