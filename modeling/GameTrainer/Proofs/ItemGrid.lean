import GameTrainer.ItemCodec

/-!
# The items of a region

A region of some size has one item at each multiple of the item's bytes that
leaves room for a whole item, and at widths below one byte one in each aligned
group of bits. Bytes behind the last whole item belong to none. Main
statements: the list of items holds exactly these, in strictly rising order of
addresses, and its length is the number that the width counts.
-/

namespace GameTrainer

namespace Width

/-- The bit offsets of a width are the multiples of its bits below eight. -/
theorem mem_bitOffsets {width : Width} {bit : Nat} :
    bit ∈ width.bitOffsets ↔ width.layout.bits ∣ bit ∧ bit < 8 := by
  cases width <;> simp only [bitOffsets, layout, List.mem_cons, List.not_mem_nil, or_false] <;>
    omega

/-- Bit offsets are listed in strictly rising order. -/
theorem pairwise_bitOffsets (width : Width) : width.bitOffsets.Pairwise (· < ·) := by
  cases width <;> decide

end Width

namespace ItemAddress

/-- The order of addresses: by byte, and inside one byte by bit. -/
def Before (first second : ItemAddress) : Prop :=
  first.byte < second.byte ∨ first.byte = second.byte ∧ first.bit < second.bit

theorem Before.irrefl (address : ItemAddress) : ¬address.Before address := by
  unfold Before
  omega

/-- The items of a region of the given size. -/
structure InGrid (width : Width) (size : Nat) (address : ItemAddress) : Prop where
  /-- Items begin at multiples of their bytes. -/
  byteAligned : width.layout.bytes ∣ address.byte
  /-- The whole item lies in the region. -/
  holds : Bytes.Holds size address width
  /-- Inside a byte, items begin at multiples of their bits. -/
  bitAligned : width.layout.bits ∣ address.bit
  /-- The item begins in its byte. -/
  bit_lt : address.bit < 8

/-- The items of a region, unit by unit and inside a unit bit by bit. -/
def grid (width : Width) (size : Nat) : List ItemAddress :=
  (List.range (size / width.layout.bytes)).flatMap fun unit =>
    width.bitOffsets.map fun bit => ⟨unit * width.layout.bytes, bit⟩

/-- A unit lies in a region exactly when its number is below the number of units. -/
theorem unit_lt_iff {bytes size unit : Nat} (hb : 0 < bytes) :
    unit < size / bytes ↔ unit * bytes + bytes ≤ size := by
  rw [← Nat.succ_le_iff, Nat.le_div_iff_mul_le hb, Nat.succ_mul]

/-- The list of items holds exactly the items. -/
theorem mem_grid {width : Width} {size : Nat} {address : ItemAddress} :
    address ∈ grid width size ↔ address.InGrid width size := by
  have hb := width.layout_bytes_pos
  simp only [grid, List.mem_flatMap, List.mem_range, List.mem_map, Width.mem_bitOffsets]
  constructor
  · rintro ⟨unit, hunit, bit, ⟨hdvd, hlt⟩, rfl⟩
    exact ⟨Nat.dvd_mul_left _ _, (unit_lt_iff hb).1 hunit, hdvd, hlt⟩
  · rintro ⟨⟨unit, hunit⟩, hholds, hdvd, hlt⟩
    rw [Nat.mul_comm] at hunit
    refine ⟨unit, ?_, address.bit, ⟨hdvd, hlt⟩, ?_⟩
    · rw [unit_lt_iff hb, ← hunit]
      exact hholds
    · rw [← hunit]

/-- The list of items is in strictly rising order, so it holds each item once. -/
theorem pairwise_grid (width : Width) (size : Nat) : (grid width size).Pairwise Before := by
  have hb := width.layout_bytes_pos
  rw [grid, List.pairwise_flatMap]
  constructor
  · intro unit _
    rw [List.pairwise_map]
    exact width.pairwise_bitOffsets.imp fun h => Or.inr ⟨rfl, h⟩
  · refine List.pairwise_lt_range.imp ?_
    intro first second hlt x hx y hy
    obtain ⟨_, _, rfl⟩ := List.mem_map.1 hx
    obtain ⟨_, _, rfl⟩ := List.mem_map.1 hy
    exact Or.inl (Nat.mul_lt_mul_of_pos_right hlt hb)

/-- A region has as many items as its width counts in its size. -/
theorem length_grid (width : Width) (size : Nat) :
    (grid width size).length = width.itemCount size := by
  rw [grid, List.length_flatMap, Width.itemCount_eq]
  simp only [List.length_map, List.map_const', List.sum_replicate_nat, List.length_range]
  cases width <;> simp [Width.isSubByte, Width.layout, Width.bitOffsets]

end ItemAddress

end GameTrainer
