import GameTrainer.CheatFrame
import GameTrainer.Proofs.AdvancedAddresses
import GameTrainer.Proofs.ItemValues

/-!
# The targets of a patch

The writes of a patch go to items that stand at even distances, so that each of them is
found by counting bits from the first one. Main statements: as long as the items of two
writes are different they share no bit; once a write lies outside memory all later ones
do; and in a memory of at most 2^29 bytes a write is left out only because its item lies
outside, since a number of items that is no word leads past the end of such a memory.
-/

namespace GameTrainer

theorem lt_of_lowestSetBit? {mask : UInt32} {count bit found : Nat}
    (h : lowestSetBit? mask count bit = some found) : found < bit + count := by
  induction count generalizing bit with
  | zero => cases h
  | succ count ih =>
    rw [lowestSetBit?] at h
    split at h
    · cases h
      omega
    · have hfound := ih h
      omega

/-- The bit offset that a mask selects lies in its byte. -/
theorem maskBitOffset_lt (mask : UInt32) : maskBitOffset mask < 8 := by
  rw [maskBitOffset]
  cases h : lowestSetBit? mask 8 0 with
  | none => decide
  | some found => exact lt_of_lowestSetBit? h

namespace ItemAddress

/-- The address of an item whose lowest bit is at a position. -/
def ofPosition (position : Nat) : ItemAddress := ⟨position / 8, position % 8⟩

/-- The item begins in its byte, and with the byte if it takes whole bytes. -/
structure IsProper (width : Width) (address : ItemAddress) : Prop where
  /-- The bit offset lies in the byte. -/
  bit_lt : address.bit < 8
  /-- Items of whole bytes have no bit offset. -/
  bit_eq_zero : width.isSubByte = false → address.bit = 0

variable {width : Width} {address : ItemAddress}

theorem ofPosition_position (h : address.bit < 8) : ofPosition address.position = address := by
  have hbyte : (8 * address.byte + address.bit) / 8 = address.byte := by omega
  have hbit : (8 * address.byte + address.bit) % 8 = address.bit := by omega
  rw [ofPosition, position, hbyte, hbit]

/-- The item at a position takes bits from there on. -/
theorem firstBit_ofPosition {position : Nat} (h : width.isSubByte = false → 8 ∣ position) :
    (ofPosition position).firstBit width = position := by
  cases hsub : width.isSubByte with
  | true =>
    rw [firstBit_of_isSubByte _ hsub, ofPosition]
    exact Nat.div_add_mod position 8
  | false =>
    rw [firstBit_of_not_isSubByte _ hsub, ofPosition]
    exact Nat.mul_div_cancel' (h hsub)

namespace IsProper

variable (h : address.IsProper width)
include h

/-- The position so many items behind an item of whole bytes begins a byte. -/
theorem dvd_position (items : Nat) (hsub : width.isSubByte = false) :
    8 ∣ address.position + items * width.span := by
  have hbit := h.bit_eq_zero hsub
  have hspan : 8 ∣ items * width.span := by
    rw [Width.span_of_not_isSubByte hsub]
    exact Nat.dvd_mul_left_of_dvd (Nat.dvd_mul_right 8 _) items
  rw [position, hbit]
  omega

/-- Further on, a proper address is found by counting the bits of all items passed over. -/
theorem further_eq (items : Nat) :
    address.further width items = ofPosition (address.position + items * width.span) := by
  cases hsub : width.isSubByte with
  | true =>
    have hspan : width.span = width.layout.bits := by
      rw [Width.span, Bytes.layout_bytes_of_isSubByte hsub, Nat.one_mul]
    rw [further_of_isSubByte address items hsub, hspan, ofPosition]
  | false =>
    have hbit := h.bit_eq_zero hsub
    have hbits : items * width.span = 8 * (items * width.layout.bytes) := by
      rw [Width.span_of_not_isSubByte hsub, Nat.mul_left_comm]
    rw [further_of_not_isSubByte address items hsub, ofPosition, position, hbits, hbit,
      ItemAddress.mk.injEq]
    omega

/-- Advancing leads as many bits on as the items have that are passed over. -/
theorem advance_eq (items : Nat) :
    address.advance items width =
      let next := ofPosition (address.position + items * width.span)
      if next.byte < addressSpace then some next else none := by
  rw [advance_eq_further, h.further_eq]

end IsProper

end ItemAddress

namespace Patch

variable (patch : Patch)

/-- A patch finds its first item by a proper address. -/
theorem isProper_start : patch.start.IsProper patch.width where
  bit_lt := by
    rw [start, ItemAddress.ofMask]
    dsimp only
    split
    · exact maskBitOffset_lt _
    · decide
  bit_eq_zero := by
    intro hsub
    rw [start, ItemAddress.ofMask, hsub]
    rfl

/-- There is at least one write. -/
theorem writeCount_pos : 0 < patch.writeCount :=
  Nat.le_max_right _ _

/-- The item of one of the writes, however far behind the first one it stands. -/
def itemAt (i : Nat) : ItemAddress :=
  .ofPosition
    (patch.start.position + patch.repetition.addToAddress.toNat * i * patch.width.span)

theorem bit_itemAt_lt (i : Nat) : (patch.itemAt i).bit < 8 :=
  Nat.mod_lt _ (by decide)

/-- A patch that stays in place writes its first item each time. -/
theorem itemAt_of_stays (hstays : patch.repetition.addToAddress = 0) (i : Nat) :
    patch.itemAt i = patch.start := by
  rw [itemAt, hstays, UInt32.toNat_zero, Nat.zero_mul, Nat.zero_mul, Nat.add_zero,
    ItemAddress.ofPosition_position patch.isProper_start.bit_lt]

/-- The first write goes to the first item. -/
@[simp] theorem itemAt_zero : patch.itemAt 0 = patch.start := by
  rw [itemAt, Nat.mul_zero, Nat.zero_mul, Nat.add_zero,
    ItemAddress.ofPosition_position patch.isProper_start.bit_lt]

theorem firstBit_itemAt (i : Nat) :
    (patch.itemAt i).firstBit patch.width =
      patch.start.position + patch.repetition.addToAddress.toNat * i * patch.width.span :=
  ItemAddress.firstBit_ofPosition (patch.isProper_start.dvd_position _)

variable {patch}

/-- A later write goes no less far than an earlier one. -/
theorem byte_itemAt_le {i j : Nat} (h : i ≤ j) :
    (patch.itemAt i).byte ≤ (patch.itemAt j).byte := by
  apply Nat.div_le_div_right
  apply Nat.add_le_add_left
  exact Nat.mul_le_mul_right _ (Nat.mul_le_mul_left _ h)

/-- The item of a later write of a patch that moves on begins behind that of an earlier one. -/
theorem firstBit_add_span_le (hmoves : patch.repetition.addToAddress ≠ 0) {i j : Nat}
    (h : i < j) :
    (patch.itemAt i).firstBit patch.width + patch.width.span ≤
      (patch.itemAt j).firstBit patch.width := by
  have hstride : 1 ≤ patch.repetition.addToAddress.toNat := by
    rw [Nat.one_le_iff_ne_zero]
    intro hzero
    exact hmoves (UInt32.toNat_inj.1 hzero)
  have hitems : patch.repetition.addToAddress.toNat * i + 1 ≤
      patch.repetition.addToAddress.toNat * j := by
    have hnext := Nat.mul_le_mul_left patch.repetition.addToAddress.toNat (Nat.succ_le_of_lt h)
    rw [Nat.mul_succ] at hnext
    omega
  have hbits := Nat.mul_le_mul_right patch.width.span hitems
  rw [Nat.add_mul, Nat.one_mul] at hbits
  rw [firstBit_itemAt, firstBit_itemAt]
  omega

/-- No bit is taken by the items of two writes of a patch that moves on. -/
theorem not_takes_itemAt (hmoves : patch.repetition.addToAddress ≠ 0) {i j position : Nat}
    (hij : i ≠ j) (h : (patch.itemAt i).Takes patch.width position) :
    ¬(patch.itemAt j).Takes patch.width position := by
  intro hother
  have hfirst := h.first_le
  have hend := h.lt_end
  have hfirst' := hother.first_le
  have hend' := hother.lt_end
  rcases Nat.lt_or_gt_of_ne hij with hlt | hlt
  · have hle := firstBit_add_span_le hmoves hlt
    omega
  · have hle := firstBit_add_span_le hmoves hlt
    omega

/-! ## Writes in memory -/

/-- The item of a write is found if it is the first or stands behind a number of items that is
a word, and if its offset is one. -/
theorem target?_eq_some_iff {i : Nat} {address : ItemAddress} :
    patch.target? i = some address ↔
      (i = 0 ∨ patch.repetition.addToAddress.toNat * i < UInt32.size ∧
        (patch.itemAt i).byte < addressSpace) ∧ patch.itemAt i = address := by
  rw [target?]
  by_cases hi : i = 0
  · rw [if_pos hi, hi, itemAt_zero, Option.some.injEq]
    exact (and_iff_right (Or.inl rfl)).symm
  · rw [if_neg hi]
    dsimp only
    rw [patch.isProper_start.advance_eq]
    dsimp only
    rw [Option.ite_none_right_eq_some, Option.ite_none_right_eq_some, Option.some.injEq,
      or_iff_right hi, and_assoc]
    rfl

/-- A write is carried out when its item is found and lies in memory. -/
theorem reach?_eq_some_iff {size i : Nat} {address : ItemAddress} :
    patch.reach? size i = some address ↔
      (i = 0 ∨ patch.repetition.addToAddress.toNat * i < UInt32.size ∧
        (patch.itemAt i).byte < addressSpace) ∧
        Bytes.Holds size (patch.itemAt i) patch.width ∧ patch.itemAt i = address := by
  rw [reach?, Option.filter_eq_some_iff, decide_eq_true_eq, target?_eq_some_iff, and_assoc]
  constructor
  · rintro ⟨hfound, rfl, hholds⟩
    exact ⟨hfound, hholds, rfl⟩
  · rintro ⟨hfound, hholds, rfl⟩
    exact ⟨hfound, rfl, hholds⟩

/-- After a write that is left out, all are. -/
theorem reach?_eq_none_of_le {size i j : Nat} (hij : i ≤ j) (h : patch.reach? size i = none) :
    patch.reach? size j = none := by
  cases hj : patch.reach? size j with
  | none => rfl
  | some address =>
    obtain ⟨hfound, hholds, _⟩ := reach?_eq_some_iff.1 hj
    have hbyte : (patch.itemAt i).byte ≤ (patch.itemAt j).byte := byte_itemAt_le hij
    have hreached : patch.reach? size i = some (patch.itemAt i) := by
      refine reach?_eq_some_iff.2 ⟨?_, ?_, rfl⟩
      · rcases hfound with hzero | ⟨hword, hspace⟩
        · exact Or.inl (by omega)
        · have hitems := Nat.mul_le_mul_left patch.repetition.addToAddress.toNat hij
          exact Or.inr ⟨by omega, by omega⟩
      · unfold Bytes.Holds at hholds ⊢
        omega
    rw [h] at hreached
    cases hreached

/-- In a memory of at most 2^29 bytes the writes whose items lie in it are carried out. -/
theorem reach?_of_holds {size i : Nat} (hsize : size ≤ 2 ^ 29)
    (h : Bytes.Holds size (patch.itemAt i) patch.width) :
    patch.reach? size i = some (patch.itemAt i) := by
  have hbytes := patch.width.layout_bytes_pos
  unfold Bytes.Holds at h
  have hbyte : (patch.itemAt i).byte =
    (patch.start.position +
      patch.repetition.addToAddress.toNat * i * patch.width.span) / 8 := rfl
  have hspan : 1 ≤ patch.width.span := by cases patch.width <;> decide
  have hitems := Nat.mul_le_mul_left (patch.repetition.addToAddress.toNat * i) hspan
  have hword : UInt32.size = 2 ^ 32 := rfl
  have hspace : addressSpace = 2 ^ 64 := rfl
  refine reach?_eq_some_iff.2 ⟨Or.inr ⟨?_, ?_⟩, h, rfl⟩
  · omega
  · omega

/-! ## One write -/

@[simp] theorem size_applyAt (memory : Bytes) (address : ItemAddress) (operand : UInt32) :
    (patch.applyAt memory address operand).size = memory.size :=
  Bytes.size_putItem ..

/-- The bits that an item does not take are kept by a write to it. -/
theorem bit?_applyAt_of_not_takes {memory : Bytes} {address : ItemAddress} {position : Nat}
    (operand : UInt32) (hb : address.bit < 8) (h : ¬address.Takes patch.width position) :
    (patch.applyAt memory address operand).bit? position = memory.bit? position :=
  Bytes.bit?_putItem_of_not_takes memory patch.bigEndian _ (by omega) h

/-- A write gives its item what the operation makes of the item's value. -/
theorem readItem_applyAt_self {memory : Bytes} {address : ItemAddress} {original : UInt32}
    (hb : address.bit < 8)
    (h : memory.readItem address patch.width patch.bigEndian = some original) (operand : UInt32) :
    (patch.applyAt memory address operand).readItem address patch.width patch.bigEndian =
      some (address.cut patch.width (patch.operation.combine original operand)) := by
  rw [applyAt, h, Option.getD_some]
  exact Bytes.readItem_putItem _ (by omega) (Bytes.holds_of_readItem h) _

/-- A write of a patch that moves on leaves the values of its other items. -/
theorem readItem_applyAt_of_ne (hmoves : patch.repetition.addToAddress ≠ 0) {i j : Nat}
    (hij : i ≠ j) (memory : Bytes) (operand : UInt32) :
    (patch.applyAt memory (patch.itemAt i) operand).readItem (patch.itemAt j) patch.width
        patch.bigEndian =
      memory.readItem (patch.itemAt j) patch.width patch.bigEndian := by
  have hbit := patch.bit_itemAt_lt j
  apply Bytes.readItem_congr _ (by omega) (size_applyAt ..)
  intro position hposition
  exact bit?_applyAt_of_not_takes operand (patch.bit_itemAt_lt i)
    (not_takes_itemAt hmoves hij.symm hposition)

/-- Memory after one write, which reads an item, combines its value with an operand and
puts the result in its place; none if the item does not lie in memory. -/
def writeAt? (patch : Patch) (memory : Bytes) (address : ItemAddress) (operand : UInt32) :
    Option Bytes :=
  (memory.readItem address patch.width patch.bigEndian).bind fun current =>
    memory.writeItem address patch.width patch.bigEndian
      (patch.operation.combine current operand)

/-- A write to an item in memory is carried out. -/
theorem writeAt?_of_holds {memory : Bytes} {address : ItemAddress} (operand : UInt32)
    (h : Bytes.Holds memory.size address patch.width) :
    patch.writeAt? memory address operand = some (patch.applyAt memory address operand) := by
  obtain ⟨current, hcurrent⟩ := Bytes.exists_readItem patch.bigEndian h
  rw [writeAt?, applyAt, hcurrent, Option.bind_some, Bytes.writeItem, if_pos h,
    Option.getD_some]

/-- A write to an item outside memory is not. -/
theorem writeAt?_of_not_holds {memory : Bytes} {address : ItemAddress} (operand : UInt32)
    (h : ¬Bytes.Holds memory.size address patch.width) :
    patch.writeAt? memory address operand = none := by
  have hnone : memory.readItem address patch.width patch.bigEndian = none := by
    rw [← Option.not_isSome_iff_eq_none, Bytes.isSome_readItem]
    exact h
  rw [writeAt?, hnone, Option.bind_none]

end Patch

end GameTrainer
