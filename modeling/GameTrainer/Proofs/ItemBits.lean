import GameTrainer.Proofs.WordBits

/-!
# Items as bits of a region

The bits of a buffer are counted through the whole of it, so that items of every
width and byte order become ranges of bits. Main statements: reading an item
depends on its bits only; putting a value into an item sets its bits and leaves
all others; and putting in what an item is worth in another buffer copies its
bits from there.
-/

namespace GameTrainer

namespace Bytes

/-- The bit at a position counted through the whole buffer. -/
def bit? (buffer : Bytes) (position : Nat) : Option Bool :=
  buffer[position / 8]?.map fun byte => byte.toNat.testBit (position % 8)

/-- The bits of one byte stand together. -/
theorem bit?_byte (buffer : Bytes) (byte : Nat) {k : Nat} (hk : k < 8) :
    buffer.bit? (8 * byte + k) = buffer[byte]?.map fun found => found.toNat.testBit k := by
  have hd : (8 * byte + k) / 8 = byte := by omega
  have hm : (8 * byte + k) % 8 = k := by omega
  rw [bit?, hd, hm]

/-- Every position inside the buffer has a bit. -/
theorem exists_bit? {buffer : Bytes} {position : Nat} (h : position < 8 * buffer.size) :
    ∃ bit, buffer.bit? position = some bit := by
  have hb : position / 8 < buffer.size := by omega
  rw [bit?, Array.getElem?_eq_getElem hb]
  exact ⟨_, rfl⟩

end Bytes

namespace ItemAddress

/-- The position of an item's first bit. -/
def firstBit (width : Width) (address : ItemAddress) : Nat :=
  8 * address.byte + if width.isSubByte then address.bit else 0

/-- The bits of a region that an item takes: as many as its width says, as far as
they lie in its bytes. -/
structure Takes (width : Width) (address : ItemAddress) (position : Nat) : Prop where
  /-- They begin with the item's first bit. -/
  first_le : address.firstBit width ≤ position
  /-- There are as many as the item has. -/
  lt_end : position < address.firstBit width + width.span
  /-- They lie in the item's bytes. -/
  inside : position < 8 * (address.byte + width.layout.bytes)

instance (width : Width) (address : ItemAddress) (position : Nat) :
    Decidable (address.Takes width position) :=
  decidable_of_iff
    (address.firstBit width ≤ position ∧ position < address.firstBit width + width.span ∧
      position < 8 * (address.byte + width.layout.bytes))
    ⟨fun h => ⟨h.1, h.2.1, h.2.2⟩, fun h => ⟨h.first_le, h.lt_end, h.inside⟩⟩

/-- The position of one bit of an item's value, counted from the least significant. -/
def bitPosition (width : Width) (bigEndian : Bool) (address : ItemAddress) (i : Nat) : Nat :=
  if width.isSubByte then 8 * address.byte + (address.bit + i)
  else 8 * (address.byte + Bytes.bytePlace width.layout.bytes bigEndian (i / 8)) + i % 8

theorem bitPosition_of_isSubByte {width : Width} (address : ItemAddress) (bigEndian : Bool)
    (hsub : width.isSubByte = true) (i : Nat) :
    address.bitPosition width bigEndian i = 8 * address.byte + (address.bit + i) := by
  rw [bitPosition, if_pos hsub]

theorem bitPosition_of_not_isSubByte {width : Width} (address : ItemAddress) (bigEndian : Bool)
    (hsub : width.isSubByte = false) (i : Nat) :
    address.bitPosition width bigEndian i =
      8 * (address.byte + Bytes.bytePlace width.layout.bytes bigEndian (i / 8)) + i % 8 := by
  rw [bitPosition, hsub]
  rfl

theorem firstBit_of_isSubByte {width : Width} (address : ItemAddress)
    (hsub : width.isSubByte = true) :
    address.firstBit width = 8 * address.byte + address.bit := by
  rw [firstBit, if_pos hsub]

theorem firstBit_of_not_isSubByte {width : Width} (address : ItemAddress)
    (hsub : width.isSubByte = false) : address.firstBit width = 8 * address.byte := by
  rw [firstBit, hsub]
  rfl

/-- Every bit that an item takes is a bit of its value. -/
theorem Takes.exists_bitPosition {width : Width} {address : ItemAddress} {position : Nat}
    (bigEndian : Bool) (h : address.Takes width position) :
    ∃ i < width.span, position = address.bitPosition width bigEndian i := by
  obtain ⟨hfirst, hend, hinside⟩ := h
  cases hsub : width.isSubByte with
  | true =>
    rw [firstBit_of_isSubByte _ hsub] at hfirst hend
    refine ⟨position - (8 * address.byte + address.bit), by omega, ?_⟩
    rw [bitPosition_of_isSubByte _ _ hsub]
    omega
  | false =>
    have hspan := Width.span_of_not_isSubByte hsub
    rw [firstBit_of_not_isSubByte _ hsub] at hfirst hend
    have hj : position / 8 - address.byte < width.layout.bytes := by omega
    have hplace := Bytes.bytePlace_lt bigEndian hj
    have hback := Bytes.bytePlace_bytePlace bigEndian hj
    generalize hk : Bytes.bytePlace width.layout.bytes bigEndian (position / 8 - address.byte) = k
    rw [hk] at hplace hback
    have hd : (8 * k + position % 8) / 8 = k := by omega
    refine ⟨8 * k + position % 8, by omega, ?_⟩
    rw [bitPosition_of_not_isSubByte _ _ hsub, hd, hback]
    omega

/-- Items of whole bytes take all bits of their values. -/
theorem takes_bitPosition_of_not_isSubByte {width : Width} (address : ItemAddress)
    (bigEndian : Bool) {i : Nat} (hsub : width.isSubByte = false) (hi : i < width.span) :
    address.Takes width (address.bitPosition width bigEndian i) := by
  have hspan := Width.span_of_not_isSubByte hsub
  have hfirst := address.firstBit_of_not_isSubByte hsub
  have hj : i / 8 < width.layout.bytes := by omega
  have hplace := Bytes.bytePlace_lt bigEndian hj
  rw [bitPosition_of_not_isSubByte _ _ hsub]
  constructor <;> omega

/-- An item in a byte takes a bit of its value when this lies in the byte. -/
theorem takes_bitPosition_iff {width : Width} (address : ItemAddress) (bigEndian : Bool)
    {i : Nat} (hsub : width.isSubByte = true) (hi : i < width.span) :
    address.Takes width (address.bitPosition width bigEndian i) ↔ address.bit + i < 8 := by
  have hbytes := Bytes.layout_bytes_of_isSubByte hsub
  have hfirst := address.firstBit_of_isSubByte hsub
  rw [bitPosition_of_isSubByte _ _ hsub]
  constructor
  · intro h
    have hinside := h.inside
    omega
  · intro h
    constructor <;> omega

end ItemAddress

namespace Bytes

/-- The bytes read for a number, from the least significant one on. -/
theorem getElem?_fromLeast_extract {buffer : Bytes} {offset count j : Nat} (bigEndian : Bool)
    (hc : offset + count ≤ buffer.size) (hj : j < count) :
    (fromLeast bigEndian (buffer.extract offset (offset + count)).toList)[j]? =
      buffer[offset + bytePlace count bigEndian j]? := by
  have hlength : (buffer.extract offset (offset + count)).toList.length = count := by
    rw [Array.length_toList, Array.size_extract]
    omega
  have hplace := bytePlace_lt bigEndian hj
  rw [getElem?_fromLeast _ bigEndian (by omega), hlength, Array.getElem?_toList,
    Array.getElem?_extract_of_lt (by omega)]
  exact (Array.getElem?_eq_getElem _).symm

/-- A number is read from its bytes, from the least significant one on. -/
theorem readNumber_eq {buffer : Bytes} {offset count : Nat} (bigEndian : Bool)
    (hc : offset + count ≤ buffer.size) :
    buffer.readNumber offset count bigEndian =
      some (bigEndianValue
        (fromLeast bigEndian (buffer.extract offset (offset + count)).toList).reverse) := by
  rw [readNumber, if_pos hc]
  cases bigEndian
  · rfl
  · dsimp only [fromLeast]
    rw [if_pos rfl, if_pos rfl, List.reverse_reverse]

/-- The bits of a number that is read, each at its position. -/
theorem testBit_readNumber {buffer : Bytes} {offset count : Nat} {bigEndian : Bool}
    {value : UInt32} (hcount : count ≤ 4)
    (h : buffer.readNumber offset count bigEndian = some value) (i : Nat) :
    value.toNat.testBit i = true ↔
      i < 8 * count ∧
        buffer.bit? (8 * (offset + bytePlace count bigEndian (i / 8)) + i % 8) = some true := by
  have hc : offset + count ≤ buffer.size := by
    rw [← isSome_readNumber buffer offset count bigEndian, h]
    rfl
  have hlength : (fromLeast bigEndian
      (buffer.extract offset (offset + count)).toList).length = count := by
    rw [length_fromLeast, Array.length_toList, Array.size_extract]
    omega
  rw [readNumber_eq bigEndian hc, Option.some.injEq] at h
  rw [← h, testBit_bigEndianValue_reverse, bit?_byte _ _ (Nat.mod_lt _ (by decide))]
  by_cases hi : i < 8 * count
  · have hj : i / 8 < count := by omega
    have hl : i < 32 := by omega
    rw [getElem?_fromLeast_extract bigEndian hc hj, decide_eq_true hl, Bool.true_and,
      Option.any_eq_true, Option.map_eq_some_iff]
    exact (and_iff_right hi).symm
  · have hj : ¬i / 8 < count := by omega
    rw [List.getElem?_eq_none (by omega), Option.any_none, Bool.and_false]
    constructor
    · intro hfalse
      cases hfalse
    · intro hboth
      exact absurd hboth.1 hi

/-- Each bit of an item's value is the bit of the buffer at its position, or zero
where the item does not take it. -/
theorem testBit_readItem {buffer : Bytes} {address : ItemAddress} {width : Width}
    {bigEndian : Bool} {value : UInt32} (hb : address.bit < 32)
    (h : buffer.readItem address width bigEndian = some value) (i : Nat) :
    value.toNat.testBit i = true ↔
      i < width.span ∧ address.Takes width (address.bitPosition width bigEndian i) ∧
        buffer.bit? (address.bitPosition width bigEndian i) = some true := by
  rw [readItem] at h
  cases hsub : width.isSubByte with
  | false =>
    have hspan := Width.span_of_not_isSubByte hsub
    rw [hsub, if_neg Bool.false_ne_true] at h
    have hbits := testBit_readNumber width.layout_bytes_le h i
    rw [hbits, ItemAddress.bitPosition_of_not_isSubByte _ _ hsub, hspan]
    constructor
    · rintro ⟨hi, hbit⟩
      have htakes := address.takes_bitPosition_of_not_isSubByte bigEndian hsub (hspan ▸ hi)
      rw [ItemAddress.bitPosition_of_not_isSubByte _ _ hsub] at htakes
      exact ⟨hi, htakes, hbit⟩
    · rintro ⟨hi, _, hbit⟩
      exact ⟨hi, hbit⟩
  | true =>
    rw [if_pos hsub, Option.map_eq_some_iff] at h
    obtain ⟨byte, hbyte, rfl⟩ := h
    rw [BitField.testBit_extract byte hb, Bool.and_eq_true, decide_eq_true_eq]
    constructor
    · rintro ⟨hbit, hi⟩
      have hlt : address.bit + i < 8 := by
        by_cases hlt : address.bit + i < 8
        · exact hlt
        · rw [Word.testBit_byte_eq_false byte (by omega)] at hbit
          cases hbit
      refine ⟨hi, (address.takes_bitPosition_iff bigEndian hsub hi).2 hlt, ?_⟩
      rw [ItemAddress.bitPosition_of_isSubByte _ _ hsub, bit?_byte _ _ hlt, hbyte, Option.map_some,
        hbit]
    · rintro ⟨hi, htakes, hbit⟩
      have hlt := (address.takes_bitPosition_iff bigEndian hsub hi).1 htakes
      rw [ItemAddress.bitPosition_of_isSubByte _ _ hsub, bit?_byte _ _ hlt, hbyte, Option.map_some,
        Option.some.injEq] at hbit
      exact ⟨hbit, hi⟩

/-- An item that lies in a buffer has a value there. -/
theorem exists_readItem {buffer : Bytes} {address : ItemAddress} {width : Width}
    (bigEndian : Bool) (h : Holds buffer.size address width) :
    ∃ value, buffer.readItem address width bigEndian = some value :=
  Option.isSome_iff_exists.1 ((isSome_readItem buffer address width bigEndian).2 h)

/-- An item that has a value in a buffer lies there. -/
theorem holds_of_readItem {buffer : Bytes} {address : ItemAddress} {width : Width}
    {bigEndian : Bool} {value : UInt32}
    (h : buffer.readItem address width bigEndian = some value) :
    Holds buffer.size address width := by
  rw [← isSome_readItem buffer address width bigEndian, h]
  rfl

/-- A buffer with the bits that an item has in another one holds its value. -/
theorem readItem_of_bits {first second : Bytes} {address : ItemAddress} {width : Width}
    {bigEndian : Bool} {value : UInt32} (hb : address.bit < 32) (hs : first.size = second.size)
    (h : ∀ position, address.Takes width position →
      first.bit? position = second.bit? position)
    (hf : first.readItem address width bigEndian = some value) :
    second.readItem address width bigEndian = some value := by
  obtain ⟨other, hg⟩ := exists_readItem bigEndian (hs ▸ holds_of_readItem hf)
  have hv : value = other := by
    apply Word.eq_of_testBit
    intro i
    rw [Bool.eq_iff_iff, testBit_readItem hb hf, testBit_readItem hb hg]
    constructor
    · rintro ⟨hi, htakes, hbit⟩
      exact ⟨hi, htakes, (h _ htakes).symm.trans hbit⟩
    · rintro ⟨hi, htakes, hbit⟩
      exact ⟨hi, htakes, (h _ htakes).trans hbit⟩
  rw [hg, hv]

/-- The value of an item depends on the bits that it takes, and on nothing else. -/
theorem readItem_congr {first second : Bytes} {address : ItemAddress} {width : Width}
    (bigEndian : Bool) (hb : address.bit < 32) (hs : first.size = second.size)
    (h : ∀ position, address.Takes width position →
      first.bit? position = second.bit? position) :
    first.readItem address width bigEndian = second.readItem address width bigEndian := by
  apply Option.ext
  intro value
  constructor
  · exact readItem_of_bits hb hs h
  · exact readItem_of_bits hb hs.symm fun position ht => (h position ht).symm

/-- Putting a value into an item leaves the bits that the item does not take. -/
theorem bit?_putItem_of_not_takes (buffer : Bytes) {address : ItemAddress} {width : Width}
    (bigEndian : Bool) (value : UInt32) {position : Nat} (hb : address.bit < 32)
    (h : ¬address.Takes width position) :
    (buffer.putItem address width bigEndian value).bit? position = buffer.bit? position := by
  unfold putItem
  dsimp only
  cases hsub : width.isSubByte with
  | false =>
    have hspan := Width.span_of_not_isSubByte hsub
    have hfirst := address.firstBit_of_not_isSubByte hsub
    have houtside : position / 8 < address.byte ∨
        address.byte + (ofNumber width.layout.bytes bigEndian
          (value &&& width.layout.mask)).length ≤ position / 8 := by
      rw [length_ofNumber]
      by_cases hle : address.byte ≤ position / 8
      · by_cases hlt : position / 8 < address.byte + width.layout.bytes
        · exact absurd (ItemAddress.Takes.mk (by omega) (by omega) (by omega)) h
        · exact Or.inr (by omega)
      · exact Or.inl (by omega)
    rw [if_neg Bool.false_ne_true, bit?, getElem?_overwrite_outside buffer houtside, bit?]
  | true =>
    have hbytes := layout_bytes_of_isSubByte hsub
    have hfirst := address.firstBit_of_isSubByte hsub
    have hk : position % 8 < 8 := Nat.mod_lt _ (by decide)
    rw [if_pos rfl, bit?, bit?, Array.getElem?_modify]
    by_cases hbyte : address.byte = position / 8
    · have hout : ¬(address.bit ≤ position % 8 ∧ position % 8 < address.bit + width.span) := by
        intro hin
        exact h ⟨by omega, by omega, by omega⟩
      rw [if_pos hbyte, Option.map_map]
      congr 1
      funext byte
      rw [Function.comp, BitField.testBit_replace byte hb width value hk, if_neg hout]
    · rw [if_neg hbyte]

/-- Putting a value into an item that lies in the buffer sets the bits that the item
takes to those of the value. -/
theorem bit?_putItem_bitPosition {buffer : Bytes} {address : ItemAddress} {width : Width}
    (bigEndian : Bool) (value : UInt32) {i : Nat} (hb : address.bit < 32)
    (hs : Holds buffer.size address width) (hi : i < width.span)
    (h : address.Takes width (address.bitPosition width bigEndian i)) :
    (buffer.putItem address width bigEndian value).bit?
      (address.bitPosition width bigEndian i) = some (value.toNat.testBit i) := by
  unfold Holds at hs
  unfold putItem
  dsimp only
  cases hsub : width.isSubByte with
  | false =>
    have hspan := Width.span_of_not_isSubByte hsub
    have hcut : (value &&& width.layout.mask).toNat.testBit i = value.toNat.testBit i := by
      rw [UInt32.toNat_and, Nat.testBit_and, Width.testBit_mask, decide_eq_true hi, Bool.and_true]
    have hj : i / 8 < width.layout.bytes := by omega
    have hk : i % 8 < 8 := Nat.mod_lt _ (by decide)
    have hplace := bytePlace_lt bigEndian hj
    have hlength := length_ofNumber width.layout.bytes bigEndian (value &&& width.layout.mask)
    have hsum : 8 * (i / 8) + i % 8 = i := by omega
    rw [if_neg Bool.false_ne_true, ItemAddress.bitPosition_of_not_isSubByte _ _ hsub,
      bit?_byte _ _ hk, getElem?_overwrite_inside buffer (by omega) (by omega),
      testBit_ofNumber bigEndian _ hj width.layout_bytes_le hk,
      hsum, hcut]
  | true =>
    have hbytes := layout_bytes_of_isSubByte hsub
    have hlt := (address.takes_bitPosition_iff bigEndian hsub hi).1 h
    have hin : address.byte < buffer.size := by omega
    have hfield : address.bit ≤ address.bit + i ∧
        address.bit + i < address.bit + width.span := by omega
    rw [if_pos rfl, ItemAddress.bitPosition_of_isSubByte _ _ hsub, bit?_byte _ _ hlt,
      Array.getElem?_modify, if_pos rfl, Array.getElem?_eq_getElem hin, Option.map_some,
      Option.map_some, BitField.testBit_replace _ hb width value hlt, if_pos hfield,
      Nat.add_sub_cancel_left]

/-- Putting in what an item is worth in another buffer of the same size copies the
bits that the item takes from there, and leaves the others. -/
theorem bit?_putItem_of_readItem {buffer source : Bytes} {address : ItemAddress} {width : Width}
    {bigEndian : Bool} {value : UInt32} (hb : address.bit < 32) (hs : buffer.size = source.size)
    (h : source.readItem address width bigEndian = some value) (position : Nat) :
    (buffer.putItem address width bigEndian value).bit? position =
      if address.Takes width position then source.bit? position else buffer.bit? position := by
  have hholds := holds_of_readItem h
  by_cases ht : address.Takes width position
  · rw [if_pos ht]
    obtain ⟨i, hi, rfl⟩ := ht.exists_bitPosition bigEndian
    have hinside := ht.inside
    unfold Holds at hholds
    have hlt : address.bitPosition width bigEndian i < 8 * source.size := by omega
    obtain ⟨bit, hbit⟩ := exists_bit? hlt
    rw [bit?_putItem_bitPosition bigEndian value hb (hs.symm ▸ hholds) hi ht, hbit,
      Option.some.injEq, Bool.eq_iff_iff, testBit_readItem hb h, hbit, Option.some.injEq]
    constructor
    · intro hboth
      exact hboth.2.2
    · intro htrue
      exact ⟨hi, ht, htrue⟩
  · rw [if_neg ht, bit?_putItem_of_not_takes buffer bigEndian value hb ht]

end Bytes

end GameTrainer
