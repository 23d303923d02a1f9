/-!
# Item widths

A memory region is read as a row of items of one width. Items of one, two or
four bits share a byte; wider ones take one, two or four whole bytes. Each
width has a numeric code (its place in the list of widths), a display name and
a tag used in settings and listings.
-/

namespace GameTrainer

/-- The width at which memory is read as items. -/
inductive Width where
  | bits1 | bits2 | bits4 | bits8 | bits16 | bits32
  deriving DecidableEq, Repr, Inhabited

/-- The bytes and bits that one item takes. -/
structure Layout where
  /-- Whole bytes from one item to the next; one for items inside a byte. -/
  bytes : Nat
  /-- Bits of each of those bytes that belong to one item. -/
  bits : Nat
  /-- The largest value of an item, all its bits set. -/
  mask : UInt32
  deriving DecidableEq, Repr

namespace Width

/-- Every width, at the place of its code. -/
def all : List Width := [bits1, bits2, bits4, bits8, bits16, bits32]

/-- The numeric code of a width. -/
def code : Width → Nat
  | bits1 => 0 | bits2 => 1 | bits4 => 2 | bits8 => 3 | bits16 => 4 | bits32 => 5

/-- The width with a numeric code. -/
def ofCode? (code : Nat) : Option Width := all[code]?

@[simp] theorem ofCode?_code (width : Width) : ofCode? width.code = some width := by
  cases width <;> rfl

/-- The width of items of so many bits. -/
def ofBits? : Nat → Option Width
  | 1 => some bits1
  | 2 => some bits2
  | 4 => some bits4
  | 8 => some bits8
  | 16 => some bits16
  | 32 => some bits32
  | _ => none

/-- The name shown to a user. -/
def name : Width → String
  | bits1 => "1-bit" | bits2 => "2-bit" | bits4 => "4-bit"
  | bits8 => "8-bit" | bits16 => "16-bit" | bits32 => "32-bit"

/-- The spelling used in settings and listings. -/
def tag : Width → String
  | bits1 => "1bit" | bits2 => "2bit" | bits4 => "4bit"
  | bits8 => "8bit" | bits16 => "16bit" | bits32 => "32bit"

/-- The bytes and bits of one item. -/
def layout : Width → Layout
  | bits1 => ⟨1, 1, 0x1⟩
  | bits2 => ⟨1, 2, 0x3⟩
  | bits4 => ⟨1, 4, 0xF⟩
  | bits8 => ⟨1, 8, 0xFF⟩
  | bits16 => ⟨2, 8, 0xFFFF⟩
  | bits32 => ⟨4, 8, 0xFFFFFFFF⟩

/-- Several items of this width share one byte. -/
def isSubByte : Width → Bool
  | bits1 | bits2 | bits4 => true
  | bits8 | bits16 | bits32 => false

/-- The bit offsets at which the items of one unit of bytes begin. -/
def bitOffsets : Width → List Nat
  | bits1 => [0, 1, 2, 3, 4, 5, 6, 7]
  | bits2 => [0, 2, 4, 6]
  | bits4 => [0, 4]
  | bits8 | bits16 | bits32 => [0]

/-- The number of items in so many bytes. -/
def itemCount (width : Width) (size : Nat) : Nat :=
  size * 8 / (1 <<< width.code)

theorem layout_bytes_pos (width : Width) : 0 < width.layout.bytes := by
  cases width <;> decide

theorem layout_bits_pos (width : Width) : 0 < width.layout.bits := by
  cases width <;> decide

/-- The count of items is the count of units times the items of one unit. -/
theorem itemCount_eq (width : Width) (size : Nat) :
    width.itemCount size =
      if width.isSubByte then size * width.bitOffsets.length else size / width.layout.bytes := by
  cases width <;> simp [itemCount, code, isSubByte, bitOffsets, layout] <;> omega

end Width

end GameTrainer
