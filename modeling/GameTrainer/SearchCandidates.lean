import GameTrainer.ItemCodec

/-!
# Candidate sets

The items of a region that a search has not ruled out yet, packed into one mask
byte for each unit of bytes that items of the width take. At widths below one
byte the mask has one group of bits for each item of the unit; at the other
widths the whole byte stands for the one item. The number of candidates is kept
beside the masks and lowered as candidates are removed.

`toList` is the view of a set: its candidates in the order of their addresses.
-/

namespace GameTrainer

/-- A set of items of one region at one width. -/
structure Candidates where
  /-- The width of the items. -/
  width : Width
  /-- One byte of mask for each unit of `width.layout.bytes` bytes. -/
  masks : Array UInt8
  /-- The number of candidates. -/
  count : Nat
  deriving DecidableEq, Repr

namespace Candidates

/-- The bits of a mask byte that stand for the item at a bit offset. -/
def group (width : Width) (bit : Nat) : UInt8 :=
  if width.isSubByte then (width.layout.mask <<< UInt32.ofNat bit).toUInt8 else 0xFF

/-- The item at a bit offset is marked in a mask byte. -/
def marked (width : Width) (mask : UInt8) (bit : Nat) : Bool :=
  mask &&& group width bit != 0

/-- The bit offsets of the items marked in a mask byte, in rising order. -/
def markedBits (width : Width) (mask : UInt8) : List Nat :=
  width.bitOffsets.filter (marked width mask)

/-- Every item of a region of the given size. -/
def all (size : Nat) (width : Width) : Candidates where
  width := width
  masks := Array.replicate (size / width.layout.bytes) 0xFF
  count := width.itemCount size

/-- The place of the mask byte for a byte offset, if an item begins there. -/
def unit? (set : Candidates) (byte : Nat) : Option Nat :=
  let bytes := set.width.layout.bytes
  if byte % bytes = 0 ∧ byte / bytes < set.masks.size then some (byte / bytes) else none

/-- Some bit that stands for the item at an address is still marked; at widths
of whole bytes the bit offset does not count. -/
def contains (set : Candidates) (address : ItemAddress) : Bool :=
  match set.unit? address.byte with
  | some unit => marked set.width (set.masks.getD unit 0) address.bit
  | none => false

/-- The addresses of the items marked in one mask byte. -/
def unitAddresses (width : Width) (unit : Nat) (mask : UInt8) : List ItemAddress :=
  (markedBits width mask).map fun bit => ⟨unit * width.layout.bytes, bit⟩

/-- The candidates, in the order of their addresses. -/
def toList (set : Candidates) : List ItemAddress :=
  set.masks.toList.zipIdx.flatMap fun (mask, unit) => unitAddresses set.width unit mask

/-- A place in a walk over a set: the bit offset of the item looked at next, and
the number of candidates met before it. -/
structure Cursor where
  /-- The place of the mask byte. -/
  unit : Nat := 0
  /-- The bit offset in its unit, or one past the last when the unit is done. -/
  bit : Nat := 0
  /-- The number of candidates met so far. -/
  met : Nat := 0
  deriving DecidableEq, Repr

/-- The next candidate of a walk with its number in the walk, and the cursor
behind it. The walk looks at one item after the other and keeps nothing else. -/
def next? (set : Candidates) (cursor : Cursor) : Option ((ItemAddress × Nat) × Cursor) :=
  if cursor.unit < set.masks.size then
    if cursor.bit < 8 then
      let behind := cursor.bit + set.width.layout.bits
      if marked set.width (set.masks.getD cursor.unit 0) cursor.bit then
        some ((⟨cursor.unit * set.width.layout.bytes, cursor.bit⟩, cursor.met),
          ⟨cursor.unit, behind, cursor.met + 1⟩)
      else set.next? ⟨cursor.unit, behind, cursor.met⟩
    else set.next? ⟨cursor.unit + 1, 0, cursor.met⟩
  else none
termination_by (set.masks.size - cursor.unit, 8 - cursor.bit)
decreasing_by
  · have := set.width.layout_bits_pos
    exact Prod.Lex.right _ (by omega)
  · exact Prod.Lex.left _ _ (by omega)

/-- The candidate that a walk meets after `index` others. -/
def nthFrom? (set : Candidates) (cursor : Cursor) : Nat → Option ItemAddress
  | 0 => (set.next? cursor).map fun found => found.1.1
  | index + 1 => (set.next? cursor).bind fun found => set.nthFrom? found.2 index

/-- The candidate with a number in the walk over all of them. -/
def nth? (set : Candidates) (index : Nat) : Option ItemAddress :=
  set.nthFrom? {} index

/-- The number of items that go when a mask byte is exchanged for one that
marks fewer. -/
def loss (set : Candidates) (unit : Nat) (mask : UInt8) : Nat :=
  (markedBits set.width (set.masks.getD unit 0)).length - (markedBits set.width mask).length

/-- The set with a mask byte exchanged for one that marks fewer items; the
count falls by the items that go. -/
def setMask (set : Candidates) (unit : Nat) (mask : UInt8) : Candidates :=
  let loss := set.loss unit mask
  { set with masks := set.masks.setIfInBounds unit mask, count := set.count - loss }

/-- The mask byte that a removal changes, and what it becomes. A bit offset
picks one item of a byte; without one, and at widths of whole bytes, all that
the mask byte stands for goes. No mask byte changes where no item begins. -/
def removal? (set : Candidates) (byte : Nat) (bit : Option Nat) : Option (Nat × UInt8) :=
  (set.unit? byte).bind fun unit =>
    match set.width.isSubByte, bit with
    | true, some bit =>
      if bit ∈ set.width.bitOffsets then
        some (unit, set.masks.getD unit 0 &&& ~~~group set.width bit)
      else none
    | _, _ => some (unit, 0)

/-- Remove the item at a byte and bit offset, or every item of the byte. -/
def remove (set : Candidates) (byte : Nat) (bit : Option Nat) : Candidates :=
  match set.removal? byte bit with
  | some (unit, mask) => set.setMask unit mask
  | none => set

/-- A removal takes a candidate away. -/
def removes (set : Candidates) (byte : Nat) (bit : Option Nat) : Bool :=
  match set.removal? byte bit with
  | some (unit, mask) => 0 < set.loss unit mask
  | none => false

/-- Clear the items of a mask byte that do not pass. -/
def keepBits (width : Width) (keep : Nat → Bool) (mask : UInt8) : UInt8 :=
  (markedBits width mask).foldl
    (fun left bit => if keep bit then left else left &&& ~~~group width bit) mask

/-- Keep the candidates that pass a test. -/
def filter (keep : ItemAddress → Bool) (set : Candidates) : Candidates :=
  (List.range set.masks.size).foldl
    (fun set unit =>
      set.setMask unit
        (keepBits set.width (fun bit => keep ⟨unit * set.width.layout.bytes, bit⟩)
          (set.masks.getD unit 0)))
    set

end Candidates

end GameTrainer
