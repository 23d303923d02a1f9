import GameTrainer.ItemWidth

/-!
# Item addresses

An item is found by a byte offset and, where several items share a byte, by a
bit offset. A cheat names the bit offset by a mask over the byte: its lowest
set bit. Addresses advance item by item, and a position past the last byte a
64-bit machine can address is no address. Main statement: the bit position
grows by exactly the bits of the items passed over.
-/

namespace GameTrainer

/-- The number of byte offsets of a 64-bit machine. -/
def addressSpace : Nat := UInt64.size

/-- The place of one item in a region. -/
structure ItemAddress where
  /-- Offset of the item's first byte. -/
  byte : Nat
  /-- Offset of the item's lowest bit in that byte; zero for items of whole bytes. -/
  bit : Nat
  deriving DecidableEq, Repr, Inhabited

/-- The number of the lowest set bit, searched from `bit` on among `count` bits. -/
def lowestSetBit? (mask : UInt32) : (count bit : Nat) → Option Nat
  | 0, _ => none
  | count + 1, bit =>
    if mask.toNat.testBit bit then some bit else lowestSetBit? mask count (bit + 1)

/-- The bit offset that a mask over one byte selects: its lowest set bit, and
zero for a mask that covers no bit of the byte. -/
def maskBitOffset (mask : UInt32) : Nat :=
  (lowestSetBit? mask 8 0).getD 0

namespace ItemAddress

/-- The address that a cheat's byte offset and bit mask select. -/
def ofMask (address mask : UInt32) (width : Width) : ItemAddress :=
  ⟨address.toNat, if width.isSubByte then maskBitOffset mask else 0⟩

/-- The address so many items further on; bits that run over a byte are
carried into the following ones. -/
def advance (address : ItemAddress) (items : Nat) (width : Width) : Option ItemAddress :=
  let next : ItemAddress :=
    if width.isSubByte then
      let bits := address.bit + items * width.layout.bits
      ⟨address.byte + bits / 8, bits % 8⟩
    else
      ⟨address.byte + items * width.layout.bytes, 0⟩
  if next.byte < addressSpace then some next else none

/-- The bits of an item within its byte, all eight for items of whole bytes. -/
def bitMask (address : ItemAddress) (width : Width) : UInt32 :=
  if width.isSubByte then width.layout.mask <<< UInt32.ofNat address.bit else 0xFF

/-- The position of an item's lowest bit, counted through the whole region. -/
def position (address : ItemAddress) : Nat :=
  8 * address.byte + address.bit

/-- Advancing at a width below one byte adds the items' bits to the position. -/
theorem position_advance {address next : ItemAddress} {items : Nat} {width : Width}
    (hsub : width.isSubByte = true) (h : address.advance items width = some next) :
    next.position = address.position + items * width.layout.bits := by
  simp only [advance, hsub, if_true] at h
  split at h
  · cases h
    simp only [position]
    omega
  · cases h

/-- Advancing at a width of whole bytes adds the items' bytes to the offset. -/
theorem byte_advance {address next : ItemAddress} {items : Nat} {width : Width}
    (hsub : width.isSubByte = false) (h : address.advance items width = some next) :
    next.byte = address.byte + items * width.layout.bytes ∧ next.bit = 0 := by
  simp only [advance, hsub, Bool.false_eq_true, if_false] at h
  split at h
  · cases h
    exact ⟨rfl, rfl⟩
  · cases h

end ItemAddress

end GameTrainer
