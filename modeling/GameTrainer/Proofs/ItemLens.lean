import GameTrainer.Proofs.ItemValues

/-!
# The laws of reading and writing

Reading and writing an item are the two sides of a lens on the buffer: what was put in is read
back, cut to what the item has room for; to put in what is there changes nothing; of two values
put in one after the other the second remains; and nothing else in the buffer is touched. A field
of a byte that sticks out at the end of the byte keeps what still fits, and one that begins behind
the byte keeps nothing. Main statements: these laws, together with the exact condition under which
both sides succeed; and the two byte orders are each other's mirror image, for reading and for
writing.
-/

namespace GameTrainer

namespace ItemAddress

/-- The bits of a value that an item keeps: those of its mask, and inside a byte only as many as
are left from its first bit to the end of the byte. -/
def keptBits (width : Width) (address : ItemAddress) : UInt32 :=
  if width.isSubByte then width.layout.mask &&& (0xFF >>> UInt32.ofNat address.bit)
  else width.layout.mask

/-- The kept bits are as many as the item has room for. -/
theorem testBit_keptBits (width : Width) {address : ItemAddress} (hb : address.bit < 32)
    (i : Nat) : (address.keptBits width).toNat.testBit i = decide (i < address.room width) := by
  rw [keptBits, room]
  cases hsub : width.isSubByte with
  | false =>
    rw [if_neg Bool.false_ne_true, if_neg Bool.false_ne_true]
    exact width.testBit_mask i
  | true =>
    have hbyte : (0xFF : UInt32).toNat = 2 ^ 8 - 1 := rfl
    have hfits : i < min width.span (8 - address.bit) ↔
        i < width.span ∧ address.bit + i < 8 := by omega
    rw [if_pos rfl, if_pos rfl, UInt32.toNat_and, Nat.testBit_and, width.testBit_mask,
      Word.testBit_shiftRight _ hb, hbyte, Nat.testBit_two_pow_sub_one, decide_eq_decide.2 hfits,
      Bool.decide_and]

/-- What an item keeps of a value are its kept bits. -/
theorem and_keptBits {width : Width} {address : ItemAddress} (hb : address.bit < 32)
    (value : UInt32) : value &&& address.keptBits width = address.cut width value := by
  apply Word.eq_of_testBit
  intro i
  rw [UInt32.toNat_and, Nat.testBit_and, testBit_keptBits width hb, testBit_cut, Bool.and_comm]

end ItemAddress

namespace Bytes

/-! ## One item -/

section

variable {buffer : Bytes} {address : ItemAddress} {width : Width} {bigEndian : Bool}

/-- An item that lies in the buffer takes a value. -/
theorem writeItem_of_holds (hs : Holds buffer.size address width) (value : UInt32) :
    buffer.writeItem address width bigEndian value =
      some (buffer.putItem address width bigEndian value) :=
  if_pos hs

/-- An item that does not lie in the buffer takes none, and the buffer stays as it was. -/
theorem getD_writeItem_of_not_holds (hs : ¬Holds buffer.size address width) (value : UInt32) :
    (buffer.writeItem address width bigEndian value).getD buffer = buffer := by
  rw [writeItem, if_neg hs]
  rfl

/-- To put into an item what it is worth changes no bit. -/
theorem putItem_readItem (hb : address.bit < 32) {value : UInt32}
    (h : buffer.readItem address width bigEndian = some value) :
    buffer.putItem address width bigEndian value = buffer := by
  apply eq_of_bit?
  intro position
  rw [bit?_putItem_of_readItem hb rfl h, ite_self]

end

/-! ## The two byte orders -/

/-- A buffer looked at from its other end. -/
def mirror (buffer : Bytes) : Bytes := buffer.reverse

@[simp] theorem size_mirror (buffer : Bytes) : buffer.mirror.size = buffer.size :=
  Array.size_reverse

theorem mirror_mirror (buffer : Bytes) : buffer.mirror.mirror = buffer :=
  Array.reverse_reverse buffer

theorem getElem?_mirror {buffer : Bytes} {i : Nat} (hi : i < buffer.size) :
    buffer.mirror[i]? = buffer[buffer.size - 1 - i]? :=
  Array.getElem?_reverse hi

/-- The bytes of a window stand in the mirror image in the opposite order. -/
theorem toList_extract_mirror {buffer : Bytes} {offset count : Nat}
    (h : offset + count ≤ buffer.size) :
    (buffer.mirror.extract (buffer.size - (offset + count))
        (buffer.size - (offset + count) + count)).toList =
      (buffer.extract offset (offset + count)).toList.reverse := by
  have hend : buffer.size - (offset + count) + count = buffer.size - offset := by omega
  rw [mirror, hend, ← Array.reverse_extract, Array.toList_reverse]

/-- A number in one byte order is the number in the other, read from the other end. -/
theorem readNumber_mirror {buffer : Bytes} {offset count : Nat} (bigEndian : Bool)
    (h : offset + count ≤ buffer.size) :
    buffer.mirror.readNumber (buffer.size - (offset + count)) count (!bigEndian) =
      buffer.readNumber offset count bigEndian := by
  have hmirrored : buffer.size - (offset + count) + count ≤ buffer.mirror.size := by
    rw [size_mirror]
    omega
  rw [readNumber, readNumber, if_pos hmirrored, if_pos h, toList_extract_mirror h]
  cases bigEndian
  · rfl
  · exact congrArg (fun bytes => some (bigEndianValue bytes)) (List.reverse_reverse _)

/-- Bytes that are put into the mirror image in the opposite order make the mirror image of the
buffer that they are put into. -/
theorem overwrite_mirror {buffer : Bytes} {offset : Nat} {bytes : List UInt8}
    (h : offset + bytes.length ≤ buffer.size) :
    buffer.mirror.overwrite (buffer.size - (offset + bytes.length)) bytes.reverse =
      (buffer.overwrite offset bytes).mirror := by
  have hlength : bytes.reverse.length = bytes.length := List.length_reverse
  apply Array.ext_getElem?
  intro i
  by_cases hi : i < buffer.size
  · rw [getElem?_mirror (by rwa [size_overwrite]), size_overwrite]
    by_cases hin : buffer.size - (offset + bytes.length) ≤ i ∧ i < buffer.size - offset
    · obtain ⟨j, rfl⟩ := Nat.exists_eq_add_of_le hin.1
      have hj : j < bytes.length := by omega
      have hplace : buffer.size - 1 - (buffer.size - (offset + bytes.length) + j) =
          offset + (bytes.length - 1 - j) := by omega
      rw [hplace, getElem?_overwrite_inside buffer (by omega) (by omega),
        getElem?_overwrite_inside _ (by omega) (by rwa [size_mirror]),
        List.getElem?_reverse hj]
    · have hleft : i < buffer.size - (offset + bytes.length) ∨
          buffer.size - (offset + bytes.length) + bytes.reverse.length ≤ i := by omega
      have hright : buffer.size - 1 - i < offset ∨
          offset + bytes.length ≤ buffer.size - 1 - i := by omega
      rw [getElem?_overwrite_outside _ hleft, getElem?_overwrite_outside _ hright,
        getElem?_mirror hi]
  · rw [Array.getElem?_eq_none (by rw [size_overwrite, size_mirror]; omega),
      Array.getElem?_eq_none (by rw [size_mirror, size_overwrite]; omega)]

/-- A number in one byte order is written as in the other, from the other end. -/
theorem writeNumber_mirror {buffer : Bytes} {offset count : Nat} (bigEndian : Bool)
    (h : offset + count ≤ buffer.size) (value : UInt32) :
    (buffer.mirror.writeNumber (buffer.size - (offset + count)) count (!bigEndian) value).map
        mirror =
      buffer.writeNumber offset count bigEndian value := by
  have hmirrored : buffer.size - (offset + count) + count ≤ buffer.mirror.size := by
    rw [size_mirror]
    omega
  have hlength := length_ofNumber count bigEndian value
  have hput := overwrite_mirror (hlength.symm ▸ h)
  rw [hlength] at hput
  rw [writeNumber, writeNumber, if_pos hmirrored, if_pos h, ofNumber_not, hput, Option.map_some,
    mirror_mirror]

/-! ## The lens -/

/-- Wherever an item begins, at any bit offset of a word, it can be written exactly when it can be
read, which is when its bytes lie in the buffer; else the buffer stays as it was. What is written
is read back as the kept bits of the value, the size of the buffer and all bits that the item does
not take are kept, a second value makes the first one forgotten, and to write what was read changes
nothing. A number anywhere in the buffer is read and written in either byte order as in the other
one at its place in the reversed buffer. -/
theorem items_are_lenses (buffer : Bytes) {address : ItemAddress} (hb : address.bit < 32)
    (width : Width) (bigEndian : Bool) :
    let read := fun content : Bytes => content.readItem address width bigEndian
    let write := fun (content : Bytes) value => content.writeItem address width bigEndian value
    ((read buffer).isSome ↔ address.byte + width.layout.bytes ≤ buffer.size) ∧
    (∀ value, (write buffer value).isSome ↔ (read buffer).isSome) ∧
    (¬(read buffer).isSome → ∀ value, (write buffer value).getD buffer = buffer) ∧
    (∀ old, read buffer = some old →
      write buffer old = some buffer ∧
      ∀ value, ∃ result, write buffer value = some result ∧
        result.size = buffer.size ∧
        read result = some (value &&& address.keptBits width) ∧
        (∀ position, ¬address.Takes width position →
          result.bit? position = buffer.bit? position) ∧
        ∀ second, write result second = write buffer second) ∧
    ∀ offset count, offset + count ≤ buffer.size →
      buffer.readNumber offset count bigEndian =
          buffer.mirror.readNumber (buffer.size - (offset + count)) count (!bigEndian) ∧
        ∀ value, buffer.writeNumber offset count bigEndian value =
          (buffer.mirror.writeNumber (buffer.size - (offset + count)) count (!bigEndian)
            value).map mirror := by
  intro read write
  refine ⟨isSome_readItem .., fun value => ?_, fun hnone value => ?_, fun old hold => ?_,
    fun offset count hin => ⟨(readNumber_mirror bigEndian hin).symm,
      fun value => (writeNumber_mirror bigEndian hin value).symm⟩⟩
  · exact (isSome_writeItem ..).trans (isSome_readItem ..).symm
  · rw [isSome_readItem] at hnone
    exact getD_writeItem_of_not_holds hnone value
  · have hs := holds_of_readItem hold
    constructor
    · rw [show write buffer old = _ from writeItem_of_holds hs old, putItem_readItem hb hold]
    · intro value
      refine ⟨_, writeItem_of_holds hs value, size_putItem .., ?_, ?_, fun second => ?_⟩
      · rw [ItemAddress.and_keptBits hb]
        exact readItem_putItem bigEndian hb hs value
      · intro position hposition
        exact bit?_putItem_of_not_takes buffer bigEndian value hb hposition
      · have hagain : Holds (buffer.putItem address width bigEndian value).size address width := by
          rwa [size_putItem]
        calc write (buffer.putItem address width bigEndian value) second
            = some ((buffer.putItem address width bigEndian value).putItem address width bigEndian
                second) := writeItem_of_holds hagain second
          _ = some (buffer.putItem address width bigEndian second) := by
              rw [putItem_putItem bigEndian hb hs]
          _ = write buffer second := (writeItem_of_holds hs second).symm

/-- Of four bits that begin at the seventh bit of a byte two are left in the byte; the value is cut
to them, and the rest of the buffer is kept. -/
theorem items_are_lenses_of_cut_nibble :
    let buffer : Bytes := #[0x12, 0x45, 0x7F]
    let address : ItemAddress := ⟨1, 6⟩
    address.bit < 32 ∧ buffer.readItem address .bits4 true = some 1 ∧
      ∃ result, buffer.writeItem address .bits4 true 0x3E = some result ∧
        result.readItem address .bits4 true = some 2 ∧
        result.bit? 21 = some true ∧
        result.writeItem address .bits4 true 1 = some buffer := by
  intro buffer address
  have hb : address.bit < 32 := by decide
  have hread : buffer.readItem address .bits4 true = some 1 := by decide
  have hcut : (0x3E : UInt32) &&& address.keptBits .bits4 = 2 := by decide
  obtain ⟨_, _, _, hlens, _⟩ := items_are_lenses buffer hb .bits4 true
  obtain ⟨hsame, hwrite⟩ := hlens 1 hread
  obtain ⟨result, hresult, _, hback, hkept, hsecond⟩ := hwrite 0x3E
  refine ⟨hb, hread, result, hresult, hback.trans (congrArg some hcut), ?_, (hsecond 1).trans hsame⟩
  rw [hkept 21 (by decide)]
  decide

end Bytes

end GameTrainer
