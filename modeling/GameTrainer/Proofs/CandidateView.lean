import GameTrainer.SearchCandidates
import GameTrainer.Proofs.ItemGrid

/-!
# Candidate sets as lists of items

A set is seen through its list of candidates: the items of the region whose
group of mask bits is not clear. Exchanging one mask byte drops the items of
that unit whose groups it clears. From this one law follow the effects of a
removal and of a filter on the list, and that the kept number of candidates is
the length of the list, with nothing cut off by the subtractions.
-/

namespace GameTrainer

namespace Candidates

/-! ## Groups of mask bits -/

/-- Clearing one group of a mask byte leaves the others whole. -/
theorem not_group_and_group (width : Width) : ∀ cleared ∈ width.bitOffsets,
    ∀ bit ∈ width.bitOffsets, ~~~group width cleared &&& group width bit =
      if bit = cleared then 0 else group width bit := by
  cases width <;> decide

theorem group_ne_zero (width : Width) : ∀ bit ∈ width.bitOffsets, group width bit ≠ 0 := by
  cases width <;> decide

/-- A clear mask byte marks no item. -/
theorem marked_zero (width : Width) (bit : Nat) : marked width 0 bit = false := by
  simp [marked]

/-- A full mask byte marks every item of its unit. -/
theorem marked_full {width : Width} {bit : Nat} (h : bit ∈ width.bitOffsets) :
    marked width 0xFF bit = true := by
  have hg := group_ne_zero width bit h
  have hf : (0xFF : UInt8) &&& group width bit = group width bit :=
    UInt8.and_comm .. ▸ UInt8.and_neg_one
  rw [marked, hf]
  exact bne_iff_ne.2 hg

/-- Clearing a group takes the mark from its item and from no other. -/
theorem marked_and_not_group {width : Width} {cleared bit : Nat} (mask : UInt8)
    (hc : cleared ∈ width.bitOffsets) (hb : bit ∈ width.bitOffsets) :
    marked width (mask &&& ~~~group width cleared) bit =
      (marked width mask bit && bit != cleared) := by
  rw [marked, UInt8.and_assoc, not_group_and_group width cleared hc bit hb]
  by_cases he : bit = cleared
  · simp [he]
  · simp [he, marked]

/-- Clearing the groups of the items that do not pass keeps the marks of those
that pass, and of those not looked at. -/
theorem marked_foldl {width : Width} (keep : Nat → Bool) (looked : List Nat) (mask : UInt8)
    {bit : Nat} (hl : ∀ other ∈ looked, other ∈ width.bitOffsets) (hb : bit ∈ width.bitOffsets) :
    marked width (looked.foldl
        (fun left other => if keep other then left else left &&& ~~~group width other) mask) bit =
      (marked width mask bit && (!looked.contains bit || keep bit)) := by
  induction looked generalizing mask with
  | nil => simp
  | cons other rest ih =>
    have ho : other ∈ width.bitOffsets := hl other List.mem_cons_self
    have hr : ∀ later ∈ rest, later ∈ width.bitOffsets :=
      fun later h => hl later (List.mem_cons_of_mem _ h)
    rw [List.foldl_cons, ih _ hr]
    by_cases he : bit = other
    · subst he
      cases hk : keep bit
      · simp [marked_and_not_group mask ho hb]
      · simp
    · have hn : (bit != other) = true := bne_iff_ne.2 he
      cases hk : keep other
      · simp [marked_and_not_group mask ho hb, he, hn]
      · simp [he]

/-- Of the items marked in a mask byte, exactly those that pass stay marked. -/
theorem marked_keepBits {width : Width} (keep : Nat → Bool) (mask : UInt8) {bit : Nat}
    (hb : bit ∈ width.bitOffsets) :
    marked width (keepBits width keep mask) bit = (marked width mask bit && keep bit) := by
  have hl : ∀ other ∈ markedBits width mask, other ∈ width.bitOffsets :=
    fun _ h => (List.mem_filter.1 h).1
  rw [keepBits, marked_foldl keep _ mask hl hb]
  cases hm : marked width mask bit
  · rfl
  · have hc : (markedBits width mask).contains bit = true :=
      List.contains_iff_mem.2 (List.mem_filter.2 ⟨hb, hm⟩)
    rw [hc]
    rfl

/-! ## The list of candidates -/

/-- The number of mask bytes fits the size of the region. -/
def Covers (set : Candidates) (size : Nat) : Prop :=
  set.masks.size = size / set.width.layout.bytes

/-- A unit that an item begins is found by the item's byte offset. -/
theorem unit?_mul (set : Candidates) {unit : Nat} (h : unit < set.masks.size) :
    set.unit? (unit * set.width.layout.bytes) = some unit := by
  have hb := set.width.layout_bytes_pos
  rw [unit?]
  simp [Nat.mul_div_cancel _ hb, h]

/-- An item of a unit is a candidate exactly when its group is marked. -/
theorem contains_mul (set : Candidates) {unit : Nat} (bit : Nat) (h : unit < set.masks.size) :
    set.contains ⟨unit * set.width.layout.bytes, bit⟩ =
      marked set.width (set.masks.getD unit 0) bit := by
  rw [contains]
  dsimp only
  rw [set.unit?_mul h]

/-- The mask bytes with their places, counted out. -/
theorem zipIdx_masks (masks : Array UInt8) :
    masks.toList.zipIdx = (List.range masks.size).map fun unit => (masks.getD unit 0, unit) := by
  apply List.ext_getElem
  · simp
  · intro unit h _
    have hu : unit < masks.size := by simpa using h
    simp [hu]

/-- The candidates, one mask byte after the other. -/
theorem toList_eq_flatMap (set : Candidates) :
    set.toList = (List.range set.masks.size).flatMap fun unit =>
      unitAddresses set.width unit (set.masks.getD unit 0) := by
  rw [toList, zipIdx_masks, List.flatMap_map]

/-- A candidate stands at the beginning of a unit, at a bit offset whose group of
the unit's mask byte is marked. -/
theorem mem_toList_iff {set : Candidates} {address : ItemAddress} :
    address ∈ set.toList ↔ ∃ unit < set.masks.size,
      address.byte = unit * set.width.layout.bytes ∧ address.bit ∈ set.width.bitOffsets ∧
        marked set.width (set.masks.getD unit 0) address.bit = true := by
  rw [toList_eq_flatMap]
  simp only [List.mem_flatMap, List.mem_range, unitAddresses, markedBits, List.mem_map,
    List.mem_filter]
  constructor
  · rintro ⟨unit, hunit, bit, ⟨hbit, hmark⟩, rfl⟩
    exact ⟨unit, hunit, rfl, hbit, hmark⟩
  · rintro ⟨unit, hunit, hbyte, hbit, hmark⟩
    exact ⟨unit, hunit, address.bit, ⟨hbit, hmark⟩, by rw [← hbyte]⟩

/-- A candidate begins in its byte. -/
theorem bit_lt_of_mem_toList {set : Candidates} {address : ItemAddress}
    (h : address ∈ set.toList) : address.bit < 8 := by
  obtain ⟨_, _, _, hbit, _⟩ := mem_toList_iff.1 h
  exact (Width.mem_bitOffsets.1 hbit).2

/-- The candidates are the items of the region whose groups are marked. -/
theorem toList_eq_filter {set : Candidates} {size : Nat} (h : set.Covers size) :
    set.toList = (ItemAddress.grid set.width size).filter set.contains := by
  rw [toList_eq_flatMap, ItemAddress.grid, List.filter_flatMap, h, List.flatMap_def,
    List.flatMap_def]
  refine congrArg List.flatten (List.map_congr_left ?_)
  intro unit hunit
  have hu : unit < set.masks.size := h ▸ List.mem_range.1 hunit
  rw [List.filter_map, unitAddresses, markedBits]
  congr 1
  apply List.filter_congr
  intro bit _
  exact (set.contains_mul bit hu).symm

/-- An item of the region is a candidate exactly when its group is marked. -/
theorem mem_toList {set : Candidates} {size : Nat} (h : set.Covers size) {address : ItemAddress} :
    address ∈ set.toList ↔ address.InGrid set.width size ∧ set.contains address = true := by
  rw [toList_eq_filter h, List.mem_filter, ItemAddress.mem_grid]

/-- The candidates stand in strictly rising order, so each stands there once. -/
theorem pairwise_toList {set : Candidates} {size : Nat} (h : set.Covers size) :
    set.toList.Pairwise ItemAddress.Before := by
  rw [toList_eq_filter h]
  exact (ItemAddress.pairwise_grid _ _).sublist List.filter_sublist

/-- Each candidate stands in the list once. -/
theorem nodup_toList {set : Candidates} {size : Nat} (h : set.Covers size) : set.toList.Nodup := by
  refine (pairwise_toList h).imp ?_
  rintro first _ hbefore rfl
  exact ItemAddress.Before.irrefl first hbefore

/-- At the beginning the mask bytes cover the region. -/
theorem covers_all (size : Nat) (width : Width) : (all size width).Covers size := by
  simp only [Covers, all, Array.size_replicate]

/-- At the beginning every item of the region is a candidate. -/
theorem toList_all (size : Nat) (width : Width) :
    (all size width).toList = ItemAddress.grid width size := by
  have hc := covers_all size width
  rw [toList_eq_filter hc]
  apply List.filter_eq_self.2
  intro address ha
  obtain ⟨⟨unit, hunit⟩, hholds, hdvd, hlt⟩ := ItemAddress.mem_grid.1 ha
  have hu : unit < (all size width).masks.size := by
    rw [hc, ItemAddress.unit_lt_iff (all size width).width.layout_bytes_pos,
      Nat.mul_comm]
    exact hunit ▸ hholds
  have ha : address = ⟨unit * (all size width).width.layout.bytes, address.bit⟩ := by
    rw [Nat.mul_comm]
    exact hunit ▸ rfl
  rw [ha, contains_mul _ _ hu]
  simp only [all, Array.size_replicate] at hu
  simp only [all, Array.getD_eq_getD_getElem?, Array.getElem?_replicate, hu]
  exact marked_full (Width.mem_bitOffsets.2 ⟨hdvd, hlt⟩)

/-! ## Exchanging one mask byte -/

/-- The number kept beside the masks is the number of candidates. -/
def Counted (set : Candidates) : Prop := set.count = set.toList.length

@[simp] theorem width_setMask (set : Candidates) (unit : Nat) (mask : UInt8) :
    (set.setMask unit mask).width = set.width := rfl

@[simp] theorem size_masks_setMask (set : Candidates) (unit : Nat) (mask : UInt8) :
    (set.setMask unit mask).masks.size = set.masks.size :=
  Array.size_setIfInBounds

theorem getD_setMask_self {set : Candidates} {unit : Nat} (mask : UInt8)
    (h : unit < set.masks.size) : (set.setMask unit mask).masks.getD unit 0 = mask := by
  simp [setMask, h]

theorem getD_setMask_of_ne (set : Candidates) {unit other : Nat} (mask : UInt8)
    (h : other ≠ unit) :
    (set.setMask unit mask).masks.getD other 0 = set.masks.getD other 0 := by
  simp [setMask, h.symm]

/-- When one piece of a list made of pieces changes, the list changes its length
by as much as the piece. -/
theorem length_flatMap_range {α : Type} {old new : Nat → List α} {count place : Nat}
    (hp : place < count) (h : ∀ other, other ≠ place → new other = old other) :
    ((List.range count).flatMap new).length + (old place).length =
      ((List.range count).flatMap old).length + (new place).length := by
  induction count with
  | zero => cases hp
  | succ count ih =>
    simp only [List.range_succ, List.flatMap_append, List.length_append, List.flatMap_singleton]
    by_cases he : place = count
    · subst he
      have hsame : (List.range place).flatMap new = (List.range place).flatMap old := by
        rw [List.flatMap_def, List.flatMap_def]
        refine congrArg List.flatten (List.map_congr_left ?_)
        intro other ho
        exact h other (Nat.ne_of_lt (List.mem_range.1 ho))
      rw [hsame]
      omega
    · have := ih (by omega)
      rw [h count (Ne.symm he)]
      omega

/-- Exchanging a mask byte changes the number of candidates as it changes the
number of marks in it. -/
theorem length_setMask {set : Candidates} {unit : Nat} (mask : UInt8)
    (h : unit < set.masks.size) :
    (set.setMask unit mask).toList.length +
        (markedBits set.width (set.masks.getD unit 0)).length =
      set.toList.length + (markedBits set.width mask).length := by
  have hothers : ∀ other, other ≠ unit →
      unitAddresses set.width other ((set.setMask unit mask).masks.getD other 0) =
        unitAddresses set.width other (set.masks.getD other 0) := by
    intro other ho
    rw [set.getD_setMask_of_ne mask ho]
  have hsum := length_flatMap_range h hothers
  simp only [getD_setMask_self mask h] at hsum
  rw [toList_eq_flatMap, toList_eq_flatMap, width_setMask, size_masks_setMask]
  simpa only [unitAddresses, List.length_map] using hsum

/-- A byte that marks, of the items that the mask byte of a unit marks, those that
pass and no others. -/
structure Thins (set : Candidates) (unit : Nat) (mask : UInt8) (keep : Nat → Bool) : Prop where
  /-- The unit has a mask byte. -/
  unit_lt : unit < set.masks.size
  /-- An item stays marked exactly when it passes. -/
  marks : ∀ bit ∈ set.width.bitOffsets, marked set.width mask bit =
    (marked set.width (set.masks.getD unit 0) bit && keep bit)

/-- A thinned mask byte keeps the candidates of other units, and of its own unit
those that pass. -/
theorem toList_setMask {set : Candidates} {unit : Nat} {mask : UInt8} {keep : Nat → Bool}
    (h : set.Thins unit mask keep) :
    (set.setMask unit mask).toList = set.toList.filter fun address =>
      address.byte != unit * set.width.layout.bytes || keep address.bit := by
  have hb := set.width.layout_bytes_pos
  rw [toList_eq_flatMap, toList_eq_flatMap, width_setMask, size_masks_setMask,
    List.filter_flatMap, List.flatMap_def, List.flatMap_def]
  refine congrArg List.flatten (List.map_congr_left ?_)
  intro other _
  rw [unitAddresses, unitAddresses, List.filter_map, markedBits, markedBits, List.filter_filter]
  congr 1
  apply List.filter_congr
  intro bit hbit
  by_cases he : other = unit
  · subst he
    rw [getD_setMask_self mask h.unit_lt, h.marks bit hbit]
    simp [Bool.and_comm]
  · have hne : other * set.width.layout.bytes ≠ unit * set.width.layout.bytes :=
      fun heq => he (Nat.eq_of_mul_eq_mul_right hb heq)
    rw [set.getD_setMask_of_ne mask he]
    simp [hne]

/-- A thinned mask byte marks no more items than before. -/
theorem Thins.length_le {set : Candidates} {unit : Nat} {mask : UInt8} {keep : Nat → Bool}
    (h : set.Thins unit mask keep) :
    (markedBits set.width mask).length ≤
      (markedBits set.width (set.masks.getD unit 0)).length := by
  have heq : markedBits set.width mask =
      (markedBits set.width (set.masks.getD unit 0)).filter keep := by
    rw [markedBits, markedBits, List.filter_filter]
    apply List.filter_congr
    intro bit hb
    rw [h.marks bit hb, Bool.and_comm]
  rw [heq]
  exact List.length_filter_le _ _

/-- The items that go with a mask byte are the ones by which the list shortens. -/
theorem length_add_loss {set : Candidates} {unit : Nat} {mask : UInt8} {keep : Nat → Bool}
    (h : set.Thins unit mask keep) :
    (set.setMask unit mask).toList.length + set.loss unit mask = set.toList.length := by
  have hsum := length_setMask mask h.unit_lt
  have hle := h.length_le
  rw [loss]
  omega

/-- The kept number stays right when a mask byte loses marks. -/
theorem counted_setMask {set : Candidates} {unit : Nat} {mask : UInt8} {keep : Nat → Bool}
    (h : set.Thins unit mask keep) (hc : set.Counted) : (set.setMask unit mask).Counted := by
  have hloss := length_add_loss h
  have hcount : (set.setMask unit mask).count = set.count - set.loss unit mask := rfl
  rw [Counted] at hc ⊢
  rw [hcount]
  omega

/-- At the beginning the kept number is the number of items. -/
theorem counted_all (size : Nat) (width : Width) : (all size width).Counted := by
  rw [Counted, toList_all, ItemAddress.length_grid]
  rfl

end Candidates

end GameTrainer
