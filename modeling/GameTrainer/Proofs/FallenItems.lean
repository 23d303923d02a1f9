import GameTrainer.Proofs.ItemValues
import GameTrainer.Proofs.SearchHistory

/-!
# Items that fell by a number

A search may ask for the items whose value fell by a number. The number is a whole word however
narrow the items are, and the difference is taken among words. Main statement: what passes either
fell by the number, or was smaller than it and rose by what the number lacks to `2 ^ 32`; an item
can rise by so much only if the number is above `2 ^ 32 - 2 ^ span`, and for each such number there
is a search in which one does.
-/

namespace GameTrainer

/-! ## Differences -/

/-- A value was at least so large before, and is smaller by just so much now. -/
def FellBy (delta now before : UInt32) : Prop :=
  delta.toNat ≤ before.toNat ∧ now.toNat = before.toNat - delta.toNat

/-- A value was smaller than a number before, and is larger now by what the number lacks to
`2 ^ 32`. -/
def WrappedBy (delta now before : UInt32) : Prop :=
  before.toNat < delta.toNat ∧ now.toNat = before.toNat + (2 ^ 32 - delta.toNat)

/-- A value passes when it fell by the number, or when the difference wraps. -/
theorem Query.holds_equalMinus_iff {delta now before : UInt32} :
    (Query.equalMinus delta).holds now before = true ↔
      FellBy delta now before ∨ WrappedBy delta now before := by
  have hdelta := delta.toNat_lt
  have hbefore := before.toNat_lt
  rw [holds, beq_iff_eq, ← UInt32.toNat_inj, UInt32.toNat_sub, FellBy, WrappedBy]
  omega

/-- A value below a bound is no wrapped difference unless the number lacks less than the bound to
`2 ^ 32`. -/
theorem WrappedBy.lt_delta {delta now before : UInt32} (h : WrappedBy delta now before)
    {bound : Nat} (hnow : now.toNat < bound) : 2 ^ 32 - bound < delta.toNat := by
  have hdelta := delta.toNat_lt
  obtain ⟨hlt, heq⟩ := h
  omega

/-- From zero, the difference wraps to the negative of the number. -/
theorem wrappedBy_neg {delta : UInt32} (h : 0 < delta.toNat) : WrappedBy delta (0 - delta) 0 := by
  have hdelta := delta.toNat_lt
  rw [WrappedBy, UInt32.toNat_sub, UInt32.toNat_zero]
  omega

/-! ## Narrowing by a difference -/

/-- An item has a value now and in the snapshot, and these two are related. -/
def Snapshot.Relates (snapshot : Snapshot) (current : Bytes) (address : ItemAddress)
    (relation : UInt32 → UInt32 → Prop) : Prop :=
  ∃ now before, snapshot.itemIn current address = some now ∧
    snapshot.itemIn snapshot.previous address = some before ∧ relation now before

/-- The items that a difference accepts fell by the number or wrapped. -/
theorem Snapshot.accepts_equalMinus_iff {snapshot : Snapshot} {current : Bytes}
    {address : ItemAddress} {delta : UInt32} :
    snapshot.accepts current (.equalMinus delta) address = true ↔
      snapshot.Relates current address (FellBy delta) ∨
        snapshot.Relates current address (WrappedBy delta) := by
  rw [accepts_iff]
  simp only [Narrowing.Passes, Query.holds_equalMinus_iff, Relates, itemIn]
  constructor
  · rintro ⟨now, before, hnow, hbefore, hfell | hwrapped⟩
    · exact .inl ⟨now, before, hnow, hbefore, hfell⟩
    · exact .inr ⟨now, before, hnow, hbefore, hwrapped⟩
  · rintro (⟨now, before, hnow, hbefore, hfell⟩ | ⟨now, before, hnow, hbefore, hwrapped⟩)
    · exact ⟨now, before, hnow, hbefore, .inl hfell⟩
    · exact ⟨now, before, hnow, hbefore, .inr hwrapped⟩

/-- An item can wrap only for numbers close enough to `2 ^ 32`. -/
theorem Snapshot.Relates.lt_delta {snapshot : Snapshot} {current : Bytes} {address : ItemAddress}
    {delta : UInt32} (hb : address.bit < 8)
    (h : snapshot.Relates current address (WrappedBy delta)) :
    2 ^ 32 - 2 ^ snapshot.width.span < delta.toNat := by
  obtain ⟨now, before, hnow, _, hwrapped⟩ := h
  exact hwrapped.lt_delta (Bytes.readItem_lt (by omega) hnow)

/-! ## A region of one unit -/

namespace Bytes

variable {width : Width}

/-- The bytes of one unit, with a value in its first item. -/
def unitWith (width : Width) (bigEndian : Bool) (value : UInt32) : Bytes :=
  putItem (Array.replicate width.layout.bytes 0) ⟨0, 0⟩ width bigEndian value

theorem size_unitWith (bigEndian : Bool) (value : UInt32) :
    (unitWith width bigEndian value).size = width.layout.bytes := by
  rw [unitWith, size_putItem, Array.size_replicate]

/-- The first item lies in its unit. -/
theorem holds_unit {size : Nat} (h : size = width.layout.bytes) : Holds size ⟨0, 0⟩ width := by
  unfold Holds
  dsimp only
  omega

theorem readItem_unitWith (bigEndian : Bool) {value : UInt32}
    (h : value.toNat < 2 ^ width.span) :
    (unitWith width bigEndian value).readItem ⟨0, 0⟩ width bigEndian = some value := by
  have hholds : Holds (Array.replicate width.layout.bytes (0 : UInt8)).size ⟨0, 0⟩ width :=
    holds_unit Array.size_replicate
  rw [← ItemAddress.room_of_bit_eq_zero ⟨0, 0⟩ width rfl] at h
  rw [unitWith, readItem_putItem bigEndian (by decide) hholds, ItemAddress.cut_of_lt _ h]

end Bytes

namespace Search

/-- A search on one unit, with all items as candidates. -/
def onUnit (region : Region) (width : Width) (bigEndian : Bool) (value : UInt32) : Search where
  snapshot := ⟨region, width, bigEndian, Bytes.unitWith width bigEndian value⟩
  candidates := Candidates.all width.layout.bytes width

variable (region : Region) {width : Width} (bigEndian : Bool)

theorem begin_unitWith (value : UInt32) :
    begin (.single region (Bytes.unitWith width bigEndian value)) region width bigEndian =
      .ok (onUnit region width bigEndian value) := by
  have hsize : (Bytes.unitWith width bigEndian value).size = width.layout.bytes :=
    Bytes.size_unitWith bigEndian value
  rw [begin_eq_ok width bigEndian (CoreMemory.get?_single region _), hsize, onUnit]
  rw [hsize]
  exact Nat.ne_of_gt width.layout_bytes_pos

/-- The first item of the unit is a candidate. -/
theorem first_mem_onUnit (value : UInt32) :
    ⟨0, 0⟩ ∈ (onUnit region width bigEndian value).candidates.toList := by
  rw [onUnit, Candidates.toList_all, ItemAddress.mem_grid]
  exact ⟨Nat.dvd_zero _, Bytes.holds_unit rfl, Nat.dvd_zero _, by decide⟩

/-- For each number close enough to `2 ^ 32` some search keeps an item that was smaller. -/
theorem exists_wrapped {delta : UInt32} (h : 2 ^ 32 - 2 ^ width.span < delta.toNat) :
    ∃ first later search next,
      begin (.single region first) region width bigEndian = .ok search ∧
      search.step (.single region later) (.equalMinus delta) = (.ok next.count, next) ∧
      ∃ address ∈ next.candidates.toList,
        search.snapshot.Relates later address (WrappedBy delta) := by
  -- The item is zero at first and then what the number lacks, which just fits the width.
  let search := onUnit region width bigEndian 0
  let later := Bytes.unitWith width bigEndian (0 - delta)
  have hspan : 2 ^ width.span ≤ 2 ^ 32 := by cases width <;> decide
  have hwrapped : WrappedBy delta (0 - delta) 0 := wrappedBy_neg (by omega)
  have hrisen : (0 - delta).toNat < 2 ^ width.span := by
    have hdelta := delta.toNat_lt
    rw [hwrapped.2, UInt32.toNat_zero]
    omega
  have hzero : (0 : UInt32).toNat < 2 ^ width.span := Nat.two_pow_pos width.span
  have hrelates : search.snapshot.Relates later ⟨0, 0⟩ (WrappedBy delta) :=
    ⟨_, _, Bytes.readItem_unitWith bigEndian hrisen, Bytes.readItem_unitWith bigEndian hzero,
      hwrapped⟩
  have hsize : later.size = search.snapshot.size :=
    (Bytes.size_unitWith ..).trans (Bytes.size_unitWith ..).symm
  refine ⟨_, later, search, _, begin_unitWith region bigEndian 0,
    step_eq_ok _ (CoreMemory.get?_single region later) hsize, ⟨0, 0⟩, ?_, hrelates⟩
  rw [narrowed, (search.candidates.keeps_filter _).toList, List.mem_filter,
    Snapshot.accepts_equalMinus_iff]
  exact ⟨first_mem_onUnit region bigEndian 0, .inr hrelates⟩

end Search

namespace Candidates

/-- A step with a difference goes through on bytes of the snapshot's size, and then keeps those
candidates whose items fell by the number, in plain numbers, or were smaller than it and rose by
what it lacks to `2 ^ 32`. A number up to `2 ^ 32 - 2 ^ span` leaves only items that fell by it;
for every other one, some search keeps an item that was smaller. -/
theorem difference_keeps_fallen_items (width : Width) (delta : UInt32) :
    (∀ (set : Candidates) (snapshot : Snapshot) (current : Bytes), snapshot.width = width →
      current.size = snapshot.size →
      ∃ left, set.narrow snapshot current (.equalMinus delta) =
          (.ok left.count, { snapshot with previous := current }, left) ∧
        (∀ address, address ∈ left.toList ↔ address ∈ set.toList ∧
          (snapshot.Relates current address (FellBy delta) ∨
            snapshot.Relates current address (WrappedBy delta))) ∧
        (delta.toNat ≤ 2 ^ 32 - 2 ^ width.span → ∀ address ∈ left.toList,
          snapshot.Relates current address (FellBy delta))) ∧
    (2 ^ 32 - 2 ^ width.span < delta.toNat → ∀ region bigEndian,
      ∃ first later search next,
        Search.begin (.single region first) region width bigEndian = .ok search ∧
        search.step (.single region later) (.equalMinus delta) = (.ok next.count, next) ∧
        ∃ address ∈ next.candidates.toList,
          search.snapshot.Relates later address (WrappedBy delta)) := by
  refine ⟨?_, fun h region bigEndian => Search.exists_wrapped region bigEndian h⟩
  rintro set snapshot current rfl hsize
  have hmem : ∀ address,
      address ∈ (set.filter (snapshot.accepts current (.equalMinus delta))).toList ↔
        address ∈ set.toList ∧ (snapshot.Relates current address (FellBy delta) ∨
          snapshot.Relates current address (WrappedBy delta)) := by
    intro address
    rw [(set.keeps_filter _).toList, List.mem_filter, Snapshot.accepts_equalMinus_iff]
  refine ⟨_, narrow_eq_ok set _ hsize, hmem, fun hdelta address haddress => ?_⟩
  obtain ⟨hset, hpasses⟩ := (hmem address).1 haddress
  refine hpasses.resolve_right fun hwrapped => ?_
  have hlt := hwrapped.lt_delta (bit_lt_of_mem_toList hset)
  omega

/-- Of three bytes one fell by five, one would have to be a negative number, and one stayed. A
number just below `2 ^ 32` leaves a byte that rose. -/
theorem difference_keeps_fallen_items_of_bytes :
    let snapshot : Snapshot := ⟨.systemRam, .bits8, false, #[9, 2, 7]⟩
    let current : Bytes := #[4, 253, 7]
    (5 : UInt32).toNat ≤ 2 ^ 32 - 2 ^ Width.bits8.span ∧ current.size = snapshot.size ∧
      (∃ left, (all 3 .bits8).narrow snapshot current (.equalMinus 5) =
          (.ok left.count, { snapshot with previous := current }, left) ∧
        left.toList = [⟨0, 0⟩] ∧
        ∀ address ∈ left.toList, snapshot.Relates current address (FellBy 5)) ∧
      2 ^ 32 - 2 ^ Width.bits8.span < (0xFFFFFFFF : UInt32).toNat ∧
      ∃ first later search next,
        Search.begin (.single .systemRam first) .systemRam .bits8 false = .ok search ∧
        search.step (.single .systemRam later) (.equalMinus 0xFFFFFFFF) =
          (.ok next.count, next) ∧
        ∃ address ∈ next.candidates.toList,
          search.snapshot.Relates later address (WrappedBy 0xFFFFFFFF) := by
  intro snapshot current
  have hsmall : (5 : UInt32).toNat ≤ 2 ^ 32 - 2 ^ Width.bits8.span := by decide
  have hlarge : 2 ^ 32 - 2 ^ Width.bits8.span < (0xFFFFFFFF : UInt32).toNat := by decide
  have hsize : current.size = snapshot.size := rfl
  obtain ⟨hnarrow, _⟩ := difference_keeps_fallen_items .bits8 5
  obtain ⟨_, hwrapped⟩ := difference_keeps_fallen_items .bits8 0xFFFFFFFF
  obtain ⟨left, hleft, _, hfell⟩ := hnarrow (all 3 .bits8) snapshot current rfl hsize
  have hlist : left.toList = [⟨0, 0⟩] := by
    have hpassed : ((all 3 .bits8).narrow snapshot current (.equalMinus 5)).2.2 = left :=
      congrArg (·.2.2) hleft
    rw [narrow_eq_ok _ _ hsize] at hpassed
    rw [← hpassed]
    decide
  exact ⟨hsmall, hsize, ⟨left, hleft, hlist, hfell hsmall⟩, hlarge,
    hwrapped hlarge .systemRam false⟩

/-- A byte that rose from two to three is kept as if it fell by `2 ^ 32 - 1`. -/
theorem difference_keeps_risen_byte :
    let search : Search := ⟨⟨.systemRam, .bits8, false, #[2]⟩, .all 1 .bits8⟩
    Search.begin (.single .systemRam #[2]) .systemRam .bits8 false = .ok search ∧
      ∃ next, search.step (.single .systemRam #[3]) (.equalMinus 0xFFFFFFFF) =
          (.ok next.count, next) ∧
        ⟨0, 0⟩ ∈ next.candidates.toList ∧
        ¬search.snapshot.Relates #[3] ⟨0, 0⟩ (FellBy 0xFFFFFFFF) := by
  intro search
  refine ⟨rfl, _, Search.step_eq_ok _ (CoreMemory.get?_single _ _) rfl, by decide, ?_⟩
  rintro ⟨now, before, _, hbefore, hle, _⟩
  have htwo : search.snapshot.itemIn search.snapshot.previous ⟨0, 0⟩ = some 2 := by decide
  rw [htwo] at hbefore
  cases hbefore
  revert hle
  decide

end Candidates

end GameTrainer
