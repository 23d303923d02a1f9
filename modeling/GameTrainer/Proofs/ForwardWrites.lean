import GameTrainer.Proofs.WriteTargets

/-!
# Writes that move on

A patch that moves on between two writes ends at the first write outside memory and counts
the rest as missed. Main statement: this is the same as trying every write, each on the item
that counting bits leads to, and passing over those outside memory. The writes in memory are
the first ones; each of them gives its item what the operation makes of the value that was
there at the beginning, cut to the bits of the item; and all other bits stay.
-/

namespace GameTrainer

namespace Patch

variable {patch : Patch}

/-- What writes from the `i`-th on, `left` of them at most, have done to a memory. -/
structure Walked (patch : Patch) (left i : Nat) (memory : Bytes) (result : WriteResult) :
    Prop where
  /-- Memory keeps its size. -/
  size : result.memory.size = memory.size
  /-- The writes before the `i`-th count as written. -/
  le_written : i ≤ result.written
  /-- Every write is counted. -/
  counted : result.written + result.missed = i + left
  /-- Those that count as written were carried out. -/
  reached : ∀ j, i ≤ j → j < result.written →
    patch.reach? memory.size j = some (patch.itemAt j)
  /-- If some are missed, the first of them could not be carried out. -/
  ended : result.missed ≠ 0 → patch.reach? memory.size result.written = none
  /-- An item that was written has the operation on its value of before. -/
  combined : ∀ j, i ≤ j → j < result.written → ∃ original,
    memory.readItem (patch.itemAt j) patch.width patch.bigEndian = some original ∧
      result.memory.readItem (patch.itemAt j) patch.width patch.bigEndian =
        some ((patch.itemAt j).cut patch.width
          (patch.operation.combine original (patch.operandAt j)))
  /-- The bits that no written item takes are those of before. -/
  kept : ∀ position,
    (∀ j, i ≤ j → j < result.written → ¬(patch.itemAt j).Takes patch.width position) →
      result.memory.bit? position = memory.bit? position

/-- Writes that end before the first of them have done nothing. -/
theorem Walked.stop {left i : Nat} {memory : Bytes}
    (h : left ≠ 0 → patch.reach? memory.size i = none) :
    patch.Walked left i memory ⟨memory, i, left⟩ where
  size := rfl
  le_written := Nat.le_refl i
  counted := rfl
  reached := fun _ hle hlt => absurd hlt (Nat.not_lt.2 hle)
  ended := h
  combined := fun _ hle hlt => absurd hlt (Nat.not_lt.2 hle)
  kept := fun _ _ => rfl

/-- One write before others: its item is taken by none of theirs, so that neither finds the
value of the other. -/
theorem Walked.step (hmoves : patch.repetition.addToAddress ≠ 0) {left i : Nat} {memory : Bytes}
    {result : WriteResult} (hreach : patch.reach? memory.size i = some (patch.itemAt i))
    (later : patch.Walked left (i + 1)
      (patch.applyAt memory (patch.itemAt i) (patch.operandAt i)) result) :
    patch.Walked (left + 1) i memory result := by
  have hbit := patch.bit_itemAt_lt i
  have hholds := (reach?_eq_some_iff.1 hreach).2.1
  have hle := later.le_written
  have hcounted := later.counted
  have hreached := later.reached
  have hended := later.ended
  rw [size_applyAt] at hreached hended
  refine ⟨later.size.trans (size_applyAt ..), by omega, by omega, ?_, hended, ?_, ?_⟩
  · intro j hij hj
    rcases Nat.eq_or_lt_of_le hij with rfl | hlt
    · exact hreach
    · exact hreached j hlt hj
  · intro j hij hj
    rcases Nat.eq_or_lt_of_le hij with rfl | hlt
    · obtain ⟨original, horiginal⟩ := Bytes.exists_readItem patch.bigEndian hholds
      refine ⟨original, horiginal, ?_⟩
      rw [← readItem_applyAt_self hbit horiginal]
      apply Bytes.readItem_congr _ (by omega) later.size
      intro position hposition
      apply later.kept
      intro k hik _
      exact not_takes_itemAt hmoves (Nat.ne_of_lt hik) hposition
    · obtain ⟨original, horiginal, hcombined⟩ := later.combined j hlt hj
      rw [readItem_applyAt_of_ne hmoves (Nat.ne_of_lt hlt)] at horiginal
      exact ⟨original, horiginal, hcombined⟩
  · intro position hposition
    rw [later.kept position fun j hij hj => hposition j (by omega) hj]
    exact bit?_applyAt_of_not_takes _ hbit (hposition i (Nat.le_refl i) (by omega))

/-- What the writes of a patch that moves on do. -/
theorem walked_walk (hmoves : patch.repetition.addToAddress ≠ 0) (left i : Nat)
    (memory : Bytes) : patch.Walked left i memory (patch.walk left i memory) := by
  induction left generalizing i memory with
  | zero => exact .stop fun hzero => absurd rfl hzero
  | succ left ih =>
    rw [walk]
    cases hreach : patch.reach? memory.size i with
    | none => exact .stop fun _ => hreach
    | some address =>
      obtain ⟨_, _, rfl⟩ := reach?_eq_some_iff.1 hreach
      exact .step hmoves hreach (ih (i + 1) _)

/-- Try one of the writes of a patch, and leave memory as it is when it cannot be carried
out. -/
def tryWrite (patch : Patch) (memory : Bytes) (i : Nat) : Bytes :=
  (patch.writeAt? memory (patch.itemAt i) (patch.operandAt i)).getD memory

/-- Try every write of a patch. -/
def tryWrites (patch : Patch) (memory : Bytes) : Bytes :=
  (List.range patch.writeCount).foldl patch.tryWrite memory

/-- Trying writes outside memory does nothing. -/
theorem foldl_tryWrite_of_not_holds {memory : Bytes} {writes : List Nat}
    (h : ∀ i ∈ writes, ¬Bytes.Holds memory.size (patch.itemAt i) patch.width) :
    writes.foldl patch.tryWrite memory = memory := by
  induction writes with
  | nil => rfl
  | cons i rest ih =>
    obtain ⟨hfirst, hrest⟩ := List.forall_mem_cons.1 h
    rw [List.foldl_cons, tryWrite, writeAt?_of_not_holds _ hfirst]
    exact ih hrest

/-- In a memory of at most 2^29 bytes the writes of a patch do the same as trying each. -/
theorem memory_walk (left i : Nat) {memory : Bytes} (hsize : memory.size ≤ 2 ^ 29) :
    (patch.walk left i memory).memory = (List.range' i left).foldl patch.tryWrite memory := by
  induction left generalizing i memory with
  | zero => rfl
  | succ left ih =>
    rw [walk]
    cases hreach : patch.reach? memory.size i with
    | none =>
      refine (foldl_tryWrite_of_not_holds fun j hj hholds => ?_).symm
      rw [List.mem_range'_1] at hj
      have hnone := reach?_eq_none_of_le hj.1 hreach
      rw [reach?_of_holds hsize hholds] at hnone
      cases hnone
    | some address =>
      obtain ⟨_, hholds, rfl⟩ := reach?_eq_some_iff.1 hreach
      rw [List.range'_succ, List.foldl_cons, tryWrite, writeAt?_of_holds _ hholds,
        Option.getD_some]
      exact ih (i + 1) (by rwa [size_applyAt])

/-- In a memory of at most 2^29 bytes, whatever its repetitions, a patch that moves on leaves
what trying every one of its writes leaves. The writes whose items lie in memory are the first
ones; their number and that of the others are counted. Each of their items gets what the
operation makes of the item's value of before, cut to the bits that it takes, and every bit
that none of them takes is kept. -/
theorem moving_writes_fill_prefix (hmoves : patch.repetition.addToAddress ≠ 0) {memory : Bytes}
    (hsize : memory.size ≤ 2 ^ 29) (current : UInt32) :
    let result := patch.write memory current
    result.memory = patch.tryWrites memory ∧
      result.written + result.missed = patch.writeCount ∧
      (∀ i < patch.writeCount,
        Bytes.Holds memory.size (patch.itemAt i) patch.width ↔ i < result.written) ∧
      (∀ i < result.written, ∃ original,
        memory.readItem (patch.itemAt i) patch.width patch.bigEndian = some original ∧
          result.memory.readItem (patch.itemAt i) patch.width patch.bigEndian =
            some ((patch.itemAt i).cut patch.width
              (patch.operation.combine original (patch.operandAt i)))) ∧
      ∀ position, (∀ i < result.written, ¬(patch.itemAt i).Takes patch.width position) →
        result.memory.bit? position = memory.bit? position := by
  intro result
  have hresult : result = patch.walk patch.writeCount 0 memory := if_neg hmoves
  have hwalked := patch.walked_walk hmoves patch.writeCount 0 memory
  rw [← hresult] at hwalked
  have hcounted := hwalked.counted
  refine ⟨?_, by omega, ?_, fun i hi => hwalked.combined i (Nat.zero_le i) hi,
    fun position h => hwalked.kept position fun i _ hi => h i hi⟩
  · rw [tryWrites, List.range_eq_range', hresult]
    exact memory_walk _ _ hsize
  · intro i hi
    constructor
    · intro hholds
      by_cases hlt : i < result.written
      · exact hlt
      · have hnone := reach?_eq_none_of_le (Nat.not_lt.1 hlt) (hwalked.ended (by omega))
        rw [reach?_of_holds hsize hholds] at hnone
        cases hnone
    · intro hlt
      exact (reach?_eq_some_iff.1 (hwalked.reached i (Nat.zero_le i) hlt)).2.1

/-- Of nine writes to items of two bits that begin with the last bit of a byte, three lie in two
bytes. The first and the last have room for one bit only. -/
theorem moving_writes_fill_prefix_of_two_bytes :
    let patch : Patch :=
      { bitMask := 0x80, width := .bits2, operation := .decrease, value := 1,
        repetition := { count := 9, addToValue := 2, addToAddress := 2 } }
    let memory : Bytes := #[0x34, 0xAF]
    let result := patch.write memory 0
    patch.repetition.addToAddress ≠ 0 ∧ memory.size ≤ 2 ^ 29 ∧
      result.memory = patch.tryWrites memory ∧ result.memory = #[0xB4, 0x37] ∧
      result.written = 3 ∧ result.missed = 6 ∧
      (∀ i < 9, Bytes.Holds memory.size (patch.itemAt i) patch.width ↔ i < 3) ∧
      ∃ original, memory.readItem (patch.itemAt 2) .bits2 false = some original ∧
        result.memory.readItem (patch.itemAt 2) .bits2 false =
          some ((patch.itemAt 2).cut .bits2 (original - patch.operandAt 2)) := by
  intro patch memory result
  have hmoves : patch.repetition.addToAddress ≠ 0 := by decide
  have hsize : memory.size ≤ 2 ^ 29 := by decide
  have hwritten : result.written = 3 := by decide
  have hmissed : result.missed = 6 := by decide
  obtain ⟨htried, _, hprefix, hcombined, _⟩ := moving_writes_fill_prefix hmoves hsize 0
  change ∀ i < 9, _ ↔ i < result.written at hprefix
  rw [hwritten] at hprefix
  exact ⟨hmoves, hsize, htried, by decide, hwritten, hmissed, hprefix, hcombined 2 (by decide)⟩

end Patch

end GameTrainer
