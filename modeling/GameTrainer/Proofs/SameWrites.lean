import GameTrainer.Proofs.PassFootprint

/-!
# The same writes to two memories

What a patch writes depends on memory only through the items that it writes itself, and for a
patch that sets items not even on those. Main statement: on two memories of one size that have
the same bits where a patch may write, or for a patch that sets, its writes leave every bit the
same in both, or in each as it was, and count the same.
-/

namespace GameTrainer

namespace Bytes

/-- What the same writes may leave of two buffers: a bit is then the same in both, or it is in
each of them what it was. -/
structure SameWrites (first second firstLeft secondLeft : Bytes) : Prop where
  /-- The first buffer keeps its size. -/
  kept : firstLeft.size = first.size
  /-- Both have the same size. -/
  size : firstLeft.size = secondLeft.size
  /-- A bit was written in both, or in neither. -/
  bits : ∀ position, firstLeft.bit? position = secondLeft.bit? position ∨
    firstLeft.bit? position = first.bit? position ∧
      secondLeft.bit? position = second.bit? position

namespace SameWrites

variable {first second firstLeft secondLeft firstEnd secondEnd : Bytes}

theorem refl (h : first.size = second.size) : SameWrites first second first second where
  kept := rfl
  size := h
  bits := fun _ => Or.inr ⟨rfl, rfl⟩

theorem trans (h : SameWrites first second firstLeft secondLeft)
    (later : SameWrites firstLeft secondLeft firstEnd secondEnd) :
    SameWrites first second firstEnd secondEnd where
  kept := later.kept.trans h.kept
  size := later.size
  bits := by
    intro position
    rcases later.bits position with hsame | ⟨hone, hother⟩
    · exact Or.inl hsame
    · rw [hone, hother]
      exact h.bits position

/-- Putting one value into one item is the same write. -/
theorem putItem {address : ItemAddress} {width : Width} (bigEndian : Bool)
    (hsize : first.size = second.size) (hb : address.bit < 8)
    (hs : Holds first.size address width) (value : UInt32) :
    SameWrites first second (first.putItem address width bigEndian value)
      (second.putItem address width bigEndian value) where
  kept := size_putItem ..
  size := by rw [size_putItem, size_putItem, hsize]
  bits := by
    intro position
    have hword : address.bit < 32 := by omega
    by_cases ht : address.Takes width position
    · exact Or.inl (bit?_putItem_of_cut_eq bigEndian hword hs hsize.symm rfl ht)
    · exact Or.inr ⟨bit?_putItem_of_not_takes first bigEndian value hword ht,
        bit?_putItem_of_not_takes second bigEndian value hword ht⟩

/-- An item whose bits were the same in both buffers has the same value in both. -/
theorem readItem (h : SameWrites first second firstLeft secondLeft) {address : ItemAddress}
    {width : Width} (bigEndian : Bool) (hb : address.bit < 8)
    (hbits : ∀ position, address.Takes width position →
      first.bit? position = second.bit? position) :
    firstLeft.readItem address width bigEndian = secondLeft.readItem address width bigEndian := by
  apply readItem_congr bigEndian (by omega) h.size
  intro position ht
  rcases h.bits position with hsame | ⟨hone, hother⟩
  · exact hsame
  · rw [hone, hother, hbits position ht]

/-- The same writes once more, on what they left, change nothing. -/
theorem eq_of_again (h : SameWrites first firstLeft firstLeft firstEnd) :
    firstEnd = firstLeft := by
  apply eq_of_bit?
  intro position
  rcases h.bits position with hsame | ⟨_, hother⟩
  · exact hsame.symm
  · exact hother

end SameWrites

end Bytes

namespace Patch

/-- A patch that makes the same of two memories: it sets items, or it finds the same bits where
it may write. -/
structure Alike (first second : Bytes) (patch : Patch) : Prop where
  /-- The memories have the same size. -/
  size : first.size = second.size
  /-- The values that it looks at are the same in both. -/
  values : patch.operation = .set ∨
    ∀ position, patch.MayWrite first.size position → first.bit? position = second.bit? position

namespace Alike

variable {patch : Patch} {first second firstLeft secondLeft : Bytes}

/-- The same writes leave two memories alike for a patch. -/
theorem of_sameWrites (h : patch.Alike first second)
    (hwrites : Bytes.SameWrites first second firstLeft secondLeft) :
    patch.Alike firstLeft secondLeft where
  size := hwrites.size
  values := by
    rcases h.values with hset | hbits
    · exact Or.inl hset
    · refine Or.inr fun position hmay => ?_
      rw [hwrites.kept] at hmay
      rcases hwrites.bits position with hsame | ⟨hone, hother⟩
      · exact hsame
      · rw [hone, hother, hbits position hmay]

/-- What an item is worth before one of the writes is the same in both memories, unless the write
does not look at it. -/
theorem readItem_itemAt (h : patch.Alike first second) (hwrites : patch.operation.writes = true)
    (hbegins : Bytes.Holds first.size patch.start patch.width) {i : Nat}
    (hi : i < patch.writeCount) (hholds : Bytes.Holds first.size (patch.itemAt i) patch.width) :
    patch.operation = .set ∨
      first.readItem (patch.itemAt i) patch.width patch.bigEndian =
        second.readItem (patch.itemAt i) patch.width patch.bigEndian := by
  have hbit := patch.bit_itemAt_lt i
  refine h.values.imp_right fun hbits => ?_
  apply Bytes.readItem_congr patch.bigEndian (by omega) h.size
  intro position htakes
  exact hbits position ⟨hwrites, hbegins, i, hi, hholds, htakes⟩

/-- One of the writes is the same write to both memories. -/
theorem applyAt (h : patch.Alike first second) (hwrites : patch.operation.writes = true)
    (hbegins : Bytes.Holds first.size patch.start patch.width) {i : Nat}
    (hi : i < patch.writeCount) (hholds : Bytes.Holds first.size (patch.itemAt i) patch.width)
    (operand : UInt32) :
    Bytes.SameWrites first second (patch.applyAt first (patch.itemAt i) operand)
      (patch.applyAt second (patch.itemAt i) operand) := by
  have hput := Bytes.SameWrites.putItem patch.bigEndian h.size (patch.bit_itemAt_lt i) hholds
  rcases h.readItem_itemAt hwrites hbegins hi hholds with hset | hvalue
  · rw [applyAt_of_set hset, applyAt_of_set hset]
    exact hput operand
  · rw [Patch.applyAt, Patch.applyAt, hvalue]
    exact hput _

/-- The writes from the `i`-th on are the same writes to both memories. -/
theorem walk (h : patch.Alike first second) (hwrites : patch.operation.writes = true)
    (hbegins : Bytes.Holds first.size patch.start patch.width) {left i : Nat}
    (hle : i + left ≤ patch.writeCount) :
    let one := patch.walk left i first
    let other := patch.walk left i second
    Bytes.SameWrites first second one.memory other.memory ∧ one.written = other.written ∧
      one.missed = other.missed := by
  induction left generalizing i first second with
  | zero => exact ⟨.refl h.size, rfl, rfl⟩
  | succ left ih =>
    rw [Patch.walk, Patch.walk, ← h.size]
    cases hreach : patch.reach? first.size i with
    | none => exact ⟨.refl h.size, rfl, rfl⟩
    | some address =>
      obtain ⟨_, hholds, rfl⟩ := reach?_eq_some_iff.1 hreach
      have hi : i < patch.writeCount := by omega
      have hput := h.applyAt hwrites hbegins hi hholds (patch.operandAt i)
      have hnext : Bytes.Holds (patch.applyAt first (patch.itemAt i) (patch.operandAt i)).size
          patch.start patch.width := by
        rw [size_applyAt]
        exact hbegins
      have hrest : i + 1 + left ≤ patch.writeCount := by omega
      obtain ⟨hlater, hcounts⟩ := ih (h.of_sameWrites hput) hnext hrest
      exact ⟨hput.trans hlater, hcounts⟩

/-- The writes of a patch are the same writes to both memories, and count the same. -/
theorem write (h : patch.Alike first second) (hwrites : patch.operation.writes = true)
    {current found : UInt32}
    (hcurrent : first.readItem patch.start patch.width patch.bigEndian = some current)
    (hfound : second.readItem patch.start patch.width patch.bigEndian = some found) :
    let one := patch.write first current
    let other := patch.write second found
    Bytes.SameWrites first second one.memory other.memory ∧ one.written = other.written ∧
      one.missed = other.missed := by
  have hbegins := Bytes.holds_of_readItem hcurrent
  by_cases hstays : patch.repetition.addToAddress = 0
  · have hfolded : patch.foldedValue patch.writeCount current =
        patch.foldedValue patch.writeCount found := by
      have hfirst := h.readItem_itemAt hwrites hbegins patch.writeCount_pos
      rw [itemAt_zero, hcurrent, hfound, Option.some.injEq] at hfirst
      rcases hfirst hbegins with hset | hvalue
      · rw [foldedValue, foldedValue, hset]
      · rw [hvalue]
    rw [Patch.write, Patch.write, if_pos hstays, if_pos hstays, ← h.size, hfolded, if_pos hbegins,
      if_pos hbegins]
    exact ⟨.putItem _ h.size patch.isProper_start.bit_lt hbegins _, rfl, rfl⟩
  · rw [Patch.write, Patch.write, if_neg hstays, if_neg hstays]
    exact h.walk hwrites hbegins (Nat.le_of_eq (Nat.zero_add _))

end Alike

end Patch

end GameTrainer
