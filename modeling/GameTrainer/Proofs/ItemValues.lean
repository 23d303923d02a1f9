import Mathlib.Algebra.Group.Nat.Defs
import GameTrainer.CheatPatch
import GameTrainer.Proofs.ItemBits

/-!
# What an item is worth after a write

An item keeps the low bits of a value that is put into it, as many as its width says
and as fit between its first bit and the end of its bytes. Main statements: the value
that is read back is the one that was put in, cut to these bits; what the item was
worth before makes no difference; and an operation gives the same to an item whether
it starts from a value or from what the item keeps of it.
-/

namespace GameTrainer

namespace ItemAddress

/-- The number of bits of a value that an item keeps. -/
def room (width : Width) (address : ItemAddress) : Nat :=
  if width.isSubByte then min width.span (8 - address.bit) else width.span

/-- What an item keeps of a value. -/
def cut (width : Width) (address : ItemAddress) (value : UInt32) : UInt32 :=
  UInt32.ofNat (value.toNat % 2 ^ address.room width)

variable {width : Width} (address : ItemAddress)

/-- The bits that an item keeps are those of its width that it takes. -/
theorem lt_room_iff (bigEndian : Bool) {i : Nat} :
    i < address.room width ↔
      i < width.span ∧ address.Takes width (address.bitPosition width bigEndian i) := by
  cases hsub : width.isSubByte with
  | true =>
    rw [room, if_pos hsub, Nat.lt_min]
    refine and_congr_right fun hi => ?_
    rw [address.takes_bitPosition_iff bigEndian hsub hi]
    omega
  | false =>
    rw [room, hsub, if_neg Bool.false_ne_true]
    exact (and_iff_left_of_imp (address.takes_bitPosition_of_not_isSubByte bigEndian hsub)).symm

theorem room_le (width : Width) : address.room width ≤ 32 := by
  have hspan : width.span ≤ 32 := by cases width <;> decide
  rw [room]
  split <;> omega

theorem toNat_cut (value : UInt32) :
    (address.cut width value).toNat = value.toNat % 2 ^ address.room width := by
  apply UInt32.toNat_ofNat_of_lt'
  exact Nat.lt_of_le_of_lt (Nat.mod_le _ _) value.toNat_lt

/-- An item that begins with its byte has room for all bits of its width. -/
theorem room_of_bit_eq_zero (width : Width) (h : address.bit = 0) :
    address.room width = width.span := by
  rw [room, h]
  cases width <;> rfl

/-- A value for which an item has room is kept whole. -/
theorem cut_of_lt {value : UInt32} (h : value.toNat < 2 ^ address.room width) :
    address.cut width value = value := by
  rw [← UInt32.toNat_inj, toNat_cut, Nat.mod_eq_of_lt h]

/-- What an item keeps has the bits of the value that the item has room for. -/
theorem testBit_cut (value : UInt32) (i : Nat) :
    (address.cut width value).toNat.testBit i =
      (decide (i < address.room width) && value.toNat.testBit i) := by
  rw [toNat_cut, Nat.testBit_mod_two_pow]

/-- An operation on what an item keeps of a value gives the item the same as the operation
on the value, since the bits that the item drops are never carried into those it keeps. -/
theorem cut_combine_cut (operation : Operation) (value operand : UInt32) :
    address.cut width (operation.combine (address.cut width value) operand) =
      address.cut width (operation.combine value operand) := by
  have hdvd : 2 ^ address.room width ∣ 2 ^ 32 := Nat.pow_dvd_pow 2 (address.room_le width)
  cases operation with
  | increase =>
    apply congrArg UInt32.ofNat
    rw [Operation.combine, Operation.combine, UInt32.toNat_add, UInt32.toNat_add, toNat_cut,
      Nat.mod_mod_of_dvd _ hdvd, Nat.mod_mod_of_dvd _ hdvd, Nat.mod_add_mod]
  | decrease =>
    apply congrArg UInt32.ofNat
    rw [Operation.combine, Operation.combine, UInt32.toNat_sub, UInt32.toNat_sub, toNat_cut,
      Nat.mod_mod_of_dvd _ hdvd, Nat.mod_mod_of_dvd _ hdvd, Nat.add_mod_mod]
  | _ => rfl

end ItemAddress

namespace Bytes

/-- An item is worth no more than its width has bits for. -/
theorem readItem_lt {buffer : Bytes} {address : ItemAddress} {width : Width} {bigEndian : Bool}
    {value : UInt32} (hb : address.bit < 32)
    (h : buffer.readItem address width bigEndian = some value) :
    value.toNat < 2 ^ width.span := by
  apply Nat.lt_pow_two_of_testBit
  intro i hi
  rw [Bool.eq_false_iff]
  intro hbit
  have hlt := ((testBit_readItem hb h i).1 hbit).1
  omega

/-- Two bytes with the same bits are the same. -/
theorem byte_eq_of_testBit {first second : UInt8}
    (h : ∀ k < 8, first.toNat.testBit k = second.toNat.testBit k) : first = second := by
  apply UInt8.toNat_inj.1
  apply Nat.eq_of_testBit_eq
  intro k
  by_cases hk : k < 8
  · exact h k hk
  · have hle : 8 ≤ k := by omega
    rw [Word.testBit_byte_eq_false first hle, Word.testBit_byte_eq_false second hle]

/-- Two buffers with the same bits are the same. -/
theorem eq_of_bit? {first second : Bytes}
    (h : ∀ position, first.bit? position = second.bit? position) : first = second := by
  apply Array.ext_getElem?
  intro byte
  have hbits : ∀ k < 8, first[byte]?.map (fun found => found.toNat.testBit k) =
      second[byte]?.map fun found => found.toNat.testBit k := by
    intro k hk
    rw [← bit?_byte first byte hk, ← bit?_byte second byte hk, h]
  cases hf : first[byte]? with
  | none =>
    have hnone := hbits 0 (by decide)
    rw [hf, Option.map_none] at hnone
    exact (Option.map_eq_none_iff.1 hnone.symm).symm
  | some found =>
    cases hs : second[byte]? with
    | none =>
      have hnone := hbits 0 (by decide)
      rw [hf, hs] at hnone
      cases hnone
    | some other =>
      congr 1
      apply byte_eq_of_testBit
      intro k hk
      have hbit := hbits k hk
      rw [hf, hs, Option.map_some, Option.map_some, Option.some.injEq] at hbit
      exact hbit

section

variable {buffer : Bytes} {address : ItemAddress} {width : Width} (bigEndian : Bool)
  (hb : address.bit < 32)
include hb

/-- A value that was put into an item is read back as what the item keeps of it. -/
theorem readItem_putItem (hs : Holds buffer.size address width) (value : UInt32) :
    (buffer.putItem address width bigEndian value).readItem address width bigEndian =
      some (address.cut width value) := by
  have hput : Holds (buffer.putItem address width bigEndian value).size address width := by
    rw [size_putItem]
    exact hs
  obtain ⟨found, hfound⟩ := exists_readItem bigEndian hput
  rw [hfound, Option.some.injEq]
  apply Word.eq_of_testBit
  intro i
  rw [Bool.eq_iff_iff, testBit_readItem hb hfound, address.testBit_cut, Bool.and_eq_true,
    decide_eq_true_eq, address.lt_room_iff bigEndian, and_assoc]
  refine and_congr_right fun hi => and_congr_right fun ht => ?_
  rw [bit?_putItem_bitPosition bigEndian value hb hs hi ht, Option.some.injEq]

/-- The bits that an item takes after a write depend only on what the item keeps of the
value. -/
theorem bit?_putItem_of_cut_eq {other : Bytes} (hs : Holds buffer.size address width)
    (ho : other.size = buffer.size) {first second : UInt32}
    (h : address.cut width first = address.cut width second) {position : Nat}
    (ht : address.Takes width position) :
    (buffer.putItem address width bigEndian first).bit? position =
      (other.putItem address width bigEndian second).bit? position := by
  obtain ⟨i, hi, rfl⟩ := ht.exists_bitPosition bigEndian
  have hroom := (address.lt_room_iff bigEndian).2 ⟨hi, ht⟩
  have hbit := congrArg (fun value => value.toNat.testBit i) h
  rw [address.testBit_cut, address.testBit_cut, decide_eq_true hroom, Bool.true_and,
    Bool.true_and] at hbit
  rw [bit?_putItem_bitPosition bigEndian first hb hs hi ht,
    bit?_putItem_bitPosition bigEndian second hb (ho.symm ▸ hs) hi ht, hbit]

/-- Values of which an item keeps the same make the same buffer. -/
theorem putItem_congr (hs : Holds buffer.size address width) {first second : UInt32}
    (h : address.cut width first = address.cut width second) :
    buffer.putItem address width bigEndian first =
      buffer.putItem address width bigEndian second := by
  apply eq_of_bit?
  intro position
  by_cases ht : address.Takes width position
  · exact bit?_putItem_of_cut_eq bigEndian hb hs rfl h ht
  · rw [bit?_putItem_of_not_takes buffer bigEndian first hb ht,
      bit?_putItem_of_not_takes buffer bigEndian second hb ht]

/-- Of two values put into an item one after the other, the second remains. -/
theorem putItem_putItem (hs : Holds buffer.size address width) (first second : UInt32) :
    (buffer.putItem address width bigEndian first).putItem address width bigEndian second =
      buffer.putItem address width bigEndian second := by
  have hsize : (buffer.putItem address width bigEndian first).size = buffer.size := size_putItem ..
  apply eq_of_bit?
  intro position
  by_cases ht : address.Takes width position
  · exact bit?_putItem_of_cut_eq bigEndian hb (hsize.symm ▸ hs) hsize.symm rfl ht
  · rw [bit?_putItem_of_not_takes _ bigEndian second hb ht,
      bit?_putItem_of_not_takes buffer bigEndian first hb ht,
      bit?_putItem_of_not_takes buffer bigEndian second hb ht]

end

end Bytes

end GameTrainer
