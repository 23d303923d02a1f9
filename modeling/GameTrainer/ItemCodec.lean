import GameTrainer.ItemAddress

/-!
# Reading and writing items

Items of whole bytes are numbers in either byte order; narrower items are bit
fields of one byte. Every access is checked against the buffer: an item that
does not lie wholly inside has no value and cannot be written. Main statements:
writing keeps the size of the buffer and succeeds exactly where reading does.
-/

namespace GameTrainer

/-- A run of memory bytes. -/
abbrev Bytes := Array UInt8

namespace Bytes

/-- The value of bytes with the most significant one first; only the last four
bytes of a longer run count. -/
def bigEndianValue (bytes : List UInt8) : UInt32 :=
  bytes.foldl (fun value byte => (value <<< 8) ||| byte.toUInt32) 0

/-- The place, in a byte order, of the byte that so many of the bytes are less significant than.
Counted the other way it is how many are less significant than the byte at a place. -/
def bytePlace (count : Nat) (bigEndian : Bool) (i : Nat) : Nat :=
  if bigEndian then count - 1 - i else i

/-- The low bytes of a value in a byte order. -/
def ofNumber (count : Nat) (bigEndian : Bool) (value : UInt32) : List UInt8 :=
  (List.range count).map fun i =>
    (value >>> UInt32.ofNat (bytePlace count bigEndian i * 8)).toUInt8

/-- Put bytes over those at an offset; what falls outside the buffer is dropped. -/
def overwrite (buffer : Bytes) (offset : Nat) : List UInt8 → Bytes
  | [] => buffer
  | byte :: rest => overwrite (buffer.setIfInBounds offset byte) (offset + 1) rest

/-- The number in `count` bytes from an offset, if they all lie in the buffer. -/
def readNumber (buffer : Bytes) (offset count : Nat) (bigEndian : Bool) : Option UInt32 :=
  if offset + count ≤ buffer.size then
    let bytes := (buffer.extract offset (offset + count)).toList
    some (bigEndianValue (if bigEndian then bytes else bytes.reverse))
  else none

/-- The buffer with a number put into `count` bytes from an offset, if they all
lie in it. -/
def writeNumber (buffer : Bytes) (offset count : Nat) (bigEndian : Bool) (value : UInt32) :
    Option Bytes :=
  if offset + count ≤ buffer.size then
    some (buffer.overwrite offset (ofNumber count bigEndian value))
  else none

@[simp] theorem size_overwrite (buffer : Bytes) (offset : Nat) (bytes : List UInt8) :
    (buffer.overwrite offset bytes).size = buffer.size := by
  induction bytes generalizing buffer offset with
  | nil => rfl
  | cons byte rest ih => rw [overwrite, ih, Array.size_setIfInBounds]

end Bytes

namespace BitField

/-- The field of a byte that begins at a bit and is as wide as the mask. -/
def extract (byte : UInt8) (bit : Nat) (mask : UInt32) : UInt32 :=
  (byte.toUInt32 >>> UInt32.ofNat bit) &&& mask

/-- The byte with that field replaced; its other bits are kept. -/
def replace (byte : UInt8) (bit : Nat) (mask value : UInt32) : UInt8 :=
  let field := (mask <<< UInt32.ofNat bit) &&& 0xFF
  let bits := ((value &&& mask) <<< UInt32.ofNat bit) &&& 0xFF
  ((byte.toUInt32 &&& ~~~field) ||| bits).toUInt8

end BitField

namespace Bytes

/-- The value of the item at an address. -/
def readItem (buffer : Bytes) (address : ItemAddress) (width : Width) (bigEndian : Bool) :
    Option UInt32 :=
  if width.isSubByte then
    buffer[address.byte]?.map fun byte => BitField.extract byte address.bit width.layout.mask
  else
    buffer.readNumber address.byte width.layout.bytes bigEndian

/-- The item at an address lies wholly inside a buffer of the given size. -/
def Holds (size : Nat) (address : ItemAddress) (width : Width) : Prop :=
  address.byte + width.layout.bytes ≤ size

instance (size : Nat) (address : ItemAddress) (width : Width) :
    Decidable (Holds size address width) :=
  inferInstanceAs (Decidable (_ ≤ _))

/-- The buffer with the item at an address replaced by a value cut to its
width; what falls outside the buffer is dropped. -/
def putItem (buffer : Bytes) (address : ItemAddress) (width : Width) (bigEndian : Bool)
    (value : UInt32) : Bytes :=
  let mask := width.layout.mask
  if width.isSubByte then
    buffer.modify address.byte fun byte => BitField.replace byte address.bit mask value
  else
    buffer.overwrite address.byte (ofNumber width.layout.bytes bigEndian (value &&& mask))

/-- The buffer with the item at an address replaced, if the item lies in it. -/
def writeItem (buffer : Bytes) (address : ItemAddress) (width : Width) (bigEndian : Bool)
    (value : UInt32) : Option Bytes :=
  if Holds buffer.size address width then some (buffer.putItem address width bigEndian value)
  else none

/-- A number can be read exactly where its bytes lie in the buffer. -/
theorem isSome_readNumber (buffer : Bytes) (offset count : Nat) (bigEndian : Bool) :
    (buffer.readNumber offset count bigEndian).isSome ↔ offset + count ≤ buffer.size := by
  by_cases h : offset + count ≤ buffer.size <;> simp [readNumber, h]

theorem layout_bytes_of_isSubByte {width : Width} (h : width.isSubByte = true) :
    width.layout.bytes = 1 := by
  cases width <;> simp_all [Width.isSubByte, Width.layout]

/-- An item has a value exactly when it lies wholly inside the buffer. -/
theorem isSome_readItem (buffer : Bytes) (address : ItemAddress) (width : Width)
    (bigEndian : Bool) :
    (buffer.readItem address width bigEndian).isSome ↔ Holds buffer.size address width := by
  cases h : width.isSubByte
  · simp only [readItem, h, Bool.false_eq_true, if_false, isSome_readNumber, Holds]
  · simp only [readItem, h, if_true, Option.isSome_map, Holds, layout_bytes_of_isSubByte h]
    simp only [isSome_getElem?, Nat.lt_iff_add_one_le]

/-- An item can be written exactly when it lies wholly inside the buffer. -/
theorem isSome_writeItem (buffer : Bytes) (address : ItemAddress) (width : Width)
    (bigEndian : Bool) (value : UInt32) :
    (buffer.writeItem address width bigEndian value).isSome ↔
      Holds buffer.size address width := by
  by_cases h : Holds buffer.size address width <;> simp [writeItem, h]

/-- Placing an item keeps the size of the buffer. -/
@[simp] theorem size_putItem (buffer : Bytes) (address : ItemAddress) (width : Width)
    (bigEndian : Bool) (value : UInt32) :
    (buffer.putItem address width bigEndian value).size = buffer.size := by
  unfold putItem
  dsimp only
  split
  · exact Array.size_modify
  · exact size_overwrite ..

end Bytes

end GameTrainer
