import GameTrainer.Proofs.CandidateView

/-!
# Eliminating candidates

The two ways in which a set loses candidates are the removal of what stands at a
byte and bit offset, and the filter by a test. Each is told by the items that it
drops. Main statements: a step keeps, in order, exactly the candidates that it
does not drop; the kept number falls by those that go; and a removal at a place
where no item begins changes nothing.
-/

namespace GameTrainer

/-- A step that takes candidates away. -/
inductive Elimination where
  /-- Remove the item at a byte and bit offset, or every item of the byte. -/
  | remove (byte : Nat) (bit : Option Nat)
  /-- Keep the candidates that pass a test. -/
  | filter (keep : ItemAddress → Bool)

/-- The items that a step drops. At widths below one byte a removal drops the one
at its bit offset, and all of the byte without one; at widths of whole bytes it
drops the item at its byte offset, whatever the bit offset. -/
def Elimination.drops (width : Width) (step : Elimination) (address : ItemAddress) : Bool :=
  match step with
  | remove byte bit =>
    address.byte == byte && (!width.isSubByte || bit.all fun bit => address.bit == bit)
  | filter keep => !keep address

namespace Candidates

/-- The set after a step. -/
def eliminate (set : Candidates) : Elimination → Candidates
  | .remove byte bit => set.remove byte bit
  | .filter keep => set.filter keep

/-! ## What a step keeps -/

/-- The set `next` holds the candidates of `set` that pass, and is else as large,
of the same width and rightly counted. -/
structure Keeps (set next : Candidates) (passes : ItemAddress → Bool) : Prop where
  /-- The items are of the same width. -/
  width : next.width = set.width
  /-- There are as many mask bytes. -/
  size : next.masks.size = set.masks.size
  /-- The candidates left are those that pass, in their old order. -/
  toList : next.toList = set.toList.filter passes
  /-- The kept number is still the number of candidates. -/
  counted : set.Counted → next.Counted

namespace Keeps

variable {set next last : Candidates} {passes others : ItemAddress → Bool}

theorem refl (h : ∀ address ∈ set.toList, passes address = true) : set.Keeps set passes :=
  ⟨rfl, rfl, (List.filter_eq_self.2 h).symm, id⟩

/-- Two steps keep what passes both. -/
theorem trans (hf : set.Keeps next passes) (hs : next.Keeps last others) :
    set.Keeps last fun address => others address && passes address := by
  refine ⟨hs.width.trans hf.width, hs.size.trans hf.size, ?_, hs.counted ∘ hf.counted⟩
  rw [hs.toList, hf.toList, List.filter_filter]

/-- Only what happens to candidates counts. -/
theorem congr (h : set.Keeps next passes)
    (heq : ∀ address ∈ set.toList, passes address = others address) : set.Keeps next others :=
  ⟨h.width, h.size, h.toList.trans (List.filter_congr heq), h.counted⟩

theorem covers {size : Nat} (h : set.Keeps next passes) (hc : set.Covers size) :
    next.Covers size := by
  rw [Covers, h.size, h.width]
  exact hc

/-- The kept number falls by the number of candidates that do not pass. -/
theorem count_add (h : set.Keeps next passes) (hn : set.Counted) :
    next.count + set.toList.countP (fun address => !passes address) = set.count := by
  have hcount := h.counted hn
  have hsplit := List.length_eq_countP_add_countP passes (l := set.toList)
  simp only [Bool.not_eq_true, Bool.decide_eq_false] at hsplit
  rw [Counted] at hn hcount
  rw [hn, hcount, h.toList, ← List.countP_eq_length_filter, hsplit]

end Keeps

/-- Exchanging a mask byte for a thinned one keeps what stands in other units or
passes. -/
theorem keeps_setMask {set : Candidates} {unit : Nat} {mask : UInt8} {keep : Nat → Bool}
    (h : set.Thins unit mask keep) : set.Keeps (set.setMask unit mask) fun address =>
      address.byte != unit * set.width.layout.bytes || keep address.bit :=
  ⟨rfl, size_masks_setMask .., toList_setMask h, counted_setMask h⟩

/-! ## Removals -/

/-- A clear mask byte thins a unit down to nothing. -/
theorem thins_clear {set : Candidates} {unit : Nat} {keep : Nat → Bool}
    (hu : unit < set.masks.size) (hk : ∀ bit ∈ set.width.bitOffsets, keep bit = false) :
    set.Thins unit 0 keep := by
  refine ⟨hu, ?_⟩
  intro bit hbit
  rw [marked_zero, hk bit hbit, Bool.and_false]

/-- A mask byte with one group cleared thins a unit by one item. -/
theorem thins_group {set : Candidates} {unit chosen : Nat} {keep : Nat → Bool}
    (hu : unit < set.masks.size) (hchosen : chosen ∈ set.width.bitOffsets)
    (hk : ∀ bit, keep bit = (bit != chosen)) :
    set.Thins unit (set.masks.getD unit 0 &&& ~~~group set.width chosen) keep := by
  refine ⟨hu, ?_⟩
  intro bit hbit
  rw [marked_and_not_group _ hchosen hbit, hk bit]

/-- The mask byte that a removal leaves is the old one without the items that the
removal drops. -/
theorem thins_of_removal? {set : Candidates} {byte unit : Nat} {bit : Option Nat} {mask : UInt8}
    (h : set.removal? byte bit = some (unit, mask)) :
    byte = unit * set.width.layout.bytes ∧ set.Thins unit mask fun other =>
      !(Elimination.remove byte bit).drops set.width ⟨byte, other⟩ := by
  obtain ⟨found, hfound, hmask⟩ := Option.bind_eq_some_iff.1 h
  rw [unit?] at hfound
  split at hfound
  · rename_i hplace
    cases hfound
    have hbyte : byte = byte / set.width.layout.bytes * set.width.layout.bytes :=
      (Nat.div_mul_cancel (Nat.dvd_of_mod_eq_zero hplace.1)).symm
    cases hs : set.width.isSubByte with
    | false =>
      rw [hs] at hmask
      cases hmask
      refine ⟨hbyte, thins_clear hplace.2 ?_⟩
      intro other _
      simp [Elimination.drops, hs]
    | true =>
      rw [hs] at hmask
      cases bit with
      | none =>
        cases hmask
        refine ⟨hbyte, thins_clear hplace.2 ?_⟩
        intro other _
        simp [Elimination.drops]
      | some chosen =>
        dsimp only at hmask
        split at hmask
        · rename_i hchosen
          cases hmask
          refine ⟨hbyte, thins_group hplace.2 hchosen ?_⟩
          intro other
          simp [Elimination.drops, hs, bne]
        · cases hmask
  · cases hfound

/-- A removal names no item of the region: its byte offset is no multiple of the
item's bytes or leaves no room for a whole item, or at a width below one byte its
bit offset begins no item of the byte. -/
def Misplaced (width : Width) (size byte : Nat) (bit : Option Nat) : Prop :=
  ¬width.layout.bytes ∣ byte ∨ size < byte + width.layout.bytes ∨
    width.isSubByte = true ∧ ∃ chosen, bit = some chosen ∧
      (¬width.layout.bits ∣ chosen ∨ 8 ≤ chosen)

/-- A removal changes no mask byte exactly when it names no item. -/
theorem removal?_eq_none_iff {set : Candidates} {size : Nat} (hc : set.Covers size) (byte : Nat)
    (bit : Option Nat) :
    set.removal? byte bit = none ↔ Misplaced set.width size byte bit := by
  have hb := set.width.layout_bytes_pos
  by_cases hdvd : set.width.layout.bytes ∣ byte
  · obtain ⟨unit, hunit⟩ := hdvd
    rw [Nat.mul_comm] at hunit
    subst hunit
    by_cases hu : unit < set.masks.size
    · have hroom : ¬size < unit * set.width.layout.bytes + set.width.layout.bytes := by
        rw [hc, ItemAddress.unit_lt_iff hb] at hu
        omega
      simp only [removal?, set.unit?_mul hu, Option.bind_some, Misplaced,
        Nat.dvd_mul_left, not_true_eq_false, hroom, false_or]
      cases hs : set.width.isSubByte
      · simp
      · cases bit with
        | none => simp
        | some chosen =>
          have hnot : chosen ∉ set.width.bitOffsets ↔
              ¬set.width.layout.bits ∣ chosen ∨ 8 ≤ chosen := by
            rw [Width.mem_bitOffsets]
            omega
          simp [hnot]
    · have hroom : size < unit * set.width.layout.bytes + set.width.layout.bytes := by
        rw [hc, ItemAddress.unit_lt_iff hb] at hu
        omega
      have hnone : set.unit? (unit * set.width.layout.bytes) = none := by
        rw [unit?, Nat.mul_div_cancel _ hb]
        exact if_neg fun h => hu h.2
      simp only [removal?, hnone, Option.bind_none, Misplaced, hroom, true_or, or_true]
  · have hnone : set.unit? byte = none := by
      rw [unit?]
      exact if_neg fun h => hdvd (Nat.dvd_of_mod_eq_zero h.1)
    simp only [removal?, hnone, Option.bind_none, Misplaced, hdvd, not_false_eq_true, true_or]

/-- A removal that names no item drops none. -/
theorem drops_of_misplaced {width : Width} {size byte : Nat} {bit : Option Nat}
    (h : Misplaced width size byte bit) {address : ItemAddress} (ha : address.InGrid width size) :
    (Elimination.remove byte bit).drops width address = false := by
  rw [Elimination.drops, Bool.and_eq_false_imp]
  intro hbyte
  have hbyte : address.byte = byte := eq_of_beq hbyte
  subst hbyte
  rcases h with hbyte | hroom | ⟨hs, chosen, rfl, hbit⟩
  · exact absurd ha.byteAligned hbyte
  · exact absurd ha.holds (Nat.not_le.2 hroom)
  · rw [hs]
    simp only [Bool.not_true, Option.all_some, Bool.false_or, beq_eq_false_iff_ne]
    rintro rfl
    rcases hbit with hbit | hbit
    · exact hbit ha.bitAligned
    · exact absurd ha.bit_lt (Nat.not_lt.2 hbit)

/-- A removal that names no item leaves the whole set as it was. -/
theorem remove_of_misplaced {set : Candidates} {size byte : Nat} {bit : Option Nat}
    (hc : set.Covers size) (h : Misplaced set.width size byte bit) :
    set.remove byte bit = set ∧ set.removes byte bit = false := by
  have hnone := (removal?_eq_none_iff hc byte bit).2 h
  rw [remove, removes, hnone]
  exact ⟨rfl, rfl⟩

/-- A removal keeps the candidates that it does not drop. -/
theorem keeps_remove {set : Candidates} {size : Nat} (hc : set.Covers size) (byte : Nat)
    (bit : Option Nat) : set.Keeps (set.remove byte bit) fun address =>
      !(Elimination.remove byte bit).drops set.width address := by
  cases hr : set.removal? byte bit with
  | none =>
    have hmis := (removal?_eq_none_iff hc byte bit).1 hr
    rw [(remove_of_misplaced hc hmis).1]
    apply Keeps.refl
    intro address ha
    rw [drops_of_misplaced hmis ((mem_toList hc).1 ha).1]
    rfl
  | some change =>
    obtain ⟨unit, mask⟩ := change
    obtain ⟨rfl, hthin⟩ := thins_of_removal? hr
    rw [show set.remove _ bit = set.setMask unit mask by rw [remove, hr]]
    apply (keeps_setMask hthin).congr
    intro address _
    by_cases he : address.byte = unit * set.width.layout.bytes
    · simp [Elimination.drops, he]
    · have hne : (address.byte == unit * set.width.layout.bytes) = false :=
        beq_eq_false_iff_ne.2 he
      simp [Elimination.drops, hne, bne]

/-- A removal takes a candidate away exactly when the list becomes shorter. -/
theorem removes_iff_length {set : Candidates} {size : Nat} (hc : set.Covers size) (byte : Nat)
    (bit : Option Nat) :
    set.removes byte bit = true ↔ (set.remove byte bit).toList.length < set.toList.length := by
  cases hr : set.removal? byte bit with
  | none =>
    obtain ⟨hsame, hfalse⟩ := remove_of_misplaced hc ((removal?_eq_none_iff hc byte bit).1 hr)
    rw [hsame, hfalse]
    simp
  | some change =>
    obtain ⟨unit, mask⟩ := change
    have hloss := length_add_loss (thins_of_removal? hr).2
    rw [remove, removes, hr]
    dsimp only
    rw [decide_eq_true_iff]
    omega

/-- A removal takes a candidate away exactly when it drops one. -/
theorem removes_iff {set : Candidates} {size : Nat} (hc : set.Covers size) (byte : Nat)
    (bit : Option Nat) :
    set.removes byte bit = true ↔ ∃ address ∈ set.toList,
      (Elimination.remove byte bit).drops set.width address = true := by
  rw [removes_iff_length hc, (keeps_remove hc byte bit).toList]
  have hlen := List.length_filter_eq_length_iff (l := set.toList)
    (p := fun address => !(Elimination.remove byte bit).drops set.width address)
  have hle := List.length_filter_le
    (fun address => !(Elimination.remove byte bit).drops set.width address) set.toList
  rw [Nat.lt_iff_le_and_ne, and_iff_right hle, Ne, hlen]
  simp

/-! ## Filters -/

/-- The loop of a filter after so many units. -/
def filterUnits (set : Candidates) (keep : ItemAddress → Bool) (units : Nat) : Candidates :=
  (List.range units).foldl
    (fun set unit => set.setMask unit
      (keepBits set.width (fun bit => keep ⟨unit * set.width.layout.bytes, bit⟩)
        (set.masks.getD unit 0))) set

theorem filterUnits_succ (set : Candidates) (keep : ItemAddress → Bool) (units : Nat) :
    set.filterUnits keep (units + 1) = (set.filterUnits keep units).setMask units
      (keepBits (set.filterUnits keep units).width
        (fun bit => keep ⟨units * (set.filterUnits keep units).width.layout.bytes, bit⟩)
        ((set.filterUnits keep units).masks.getD units 0)) := by
  rw [filterUnits, List.range_succ, List.foldl_append]
  rfl

/-- After so many units, a filter has dropped the candidates of these units that
do not pass, and has not yet looked at the others. -/
theorem keeps_filterUnits (set : Candidates) (keep : ItemAddress → Bool) {units : Nat}
    (h : units ≤ set.masks.size) :
    set.Keeps (set.filterUnits keep units) fun address =>
      decide (units * set.width.layout.bytes ≤ address.byte) || keep address := by
  have hb := set.width.layout_bytes_pos
  induction units with
  | zero => exact Keeps.refl (by simp)
  | succ units ih =>
    have hprev := ih (by omega)
    have hunit : units < (set.filterUnits keep units).masks.size := by
      rw [hprev.size]
      omega
    have hthin : (set.filterUnits keep units).Thins units _ _ :=
      ⟨hunit, fun bit hbit => marked_keepBits
        (fun bit => keep ⟨units * (set.filterUnits keep units).width.layout.bytes, bit⟩)
        ((set.filterUnits keep units).masks.getD units 0) hbit⟩
    rw [filterUnits_succ]
    apply (hprev.trans (keeps_setMask hthin)).congr
    intro address ha
    rw [hprev.width]
    obtain ⟨unit, _, hbyte, _⟩ := mem_toList_iff.1 ha
    by_cases he : unit = units
    · subst he
      have hlt : ¬(unit + 1) * set.width.layout.bytes ≤ unit * set.width.layout.bytes := by
        rw [Nat.succ_mul]
        omega
      have hkeep : keep ⟨unit * set.width.layout.bytes, address.bit⟩ = keep address := by
        rw [← hbyte]
      simp [hlt, hbyte, hkeep]
    · have hne : address.byte ≠ units * set.width.layout.bytes := by
        rw [hbyte]
        exact fun heq => he (Nat.eq_of_mul_eq_mul_right hb heq)
      have hle : (units + 1) * set.width.layout.bytes ≤ address.byte ↔
          units * set.width.layout.bytes ≤ address.byte := by
        rw [hbyte, Nat.mul_le_mul_right_iff hb, Nat.mul_le_mul_right_iff hb]
        omega
      simp [hne, hle]

/-- A filter keeps the candidates that pass, in their order. -/
theorem keeps_filter (set : Candidates) (keep : ItemAddress → Bool) :
    set.Keeps (set.filter keep) keep := by
  apply (set.keeps_filterUnits keep (Nat.le_refl _)).congr
  intro address ha
  obtain ⟨unit, hunit, hbyte, _⟩ := mem_toList_iff.1 ha
  have hlt : ¬set.masks.size * set.width.layout.bytes ≤ address.byte := by
    rw [hbyte, Nat.mul_le_mul_right_iff set.width.layout_bytes_pos]
    omega
  simp [hlt]

/-- A step keeps exactly the candidates that it does not drop. -/
theorem keeps_eliminate {set : Candidates} {size : Nat} (hc : set.Covers size)
    (step : Elimination) :
    set.Keeps (set.eliminate step) fun address => !step.drops set.width address := by
  cases step with
  | remove byte bit => exact keeps_remove hc byte bit
  | filter keep =>
    apply (set.keeps_filter keep).congr
    intro address _
    exact (Bool.not_not _).symm

end Candidates

end GameTrainer
