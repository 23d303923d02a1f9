import GameTrainer.ItemAddress

/-!
# Addresses further on

Advancing leads to a place that is found by counting: bits at widths below one byte, bytes at the
others. The place is an address as long as its byte offset is one. Main statement: advancing by
some items and then by others is advancing by all of them, where both lead to the same address or
neither leads to any; the address lies as far on as the items take bits or bytes, begins in its
byte, and is missing exactly where the byte offset would run out of the address space.
-/

namespace GameTrainer.ItemAddress

/-- The place so many items further on, however far that is. -/
def further (width : Width) (address : ItemAddress) (items : Nat) : ItemAddress :=
  if width.isSubByte then
    let position := address.position + items * width.layout.bits
    ⟨position / 8, position % 8⟩
  else ⟨address.byte + items * width.layout.bytes, 0⟩

section

variable {width : Width} (address : ItemAddress) (items : Nat)

theorem further_of_isSubByte (h : width.isSubByte = true) :
    address.further width items =
      ⟨(address.position + items * width.layout.bits) / 8,
        (address.position + items * width.layout.bits) % 8⟩ := by
  rw [further, if_pos h]

theorem further_of_not_isSubByte (h : width.isSubByte = false) :
    address.further width items = ⟨address.byte + items * width.layout.bytes, 0⟩ := by
  rw [further, h, if_neg Bool.false_ne_true]

/-- Advancing leads further on as long as the address space reaches. -/
theorem advance_eq_further :
    address.advance items width =
      if (address.further width items).byte < addressSpace then some (address.further width items)
      else none := by
  have hnext : (if width.isSubByte then
        (⟨address.byte + (address.bit + items * width.layout.bits) / 8,
          (address.bit + items * width.layout.bits) % 8⟩ : ItemAddress)
      else ⟨address.byte + items * width.layout.bytes, 0⟩) = address.further width items := by
    cases hsub : width.isSubByte with
    | true =>
      rw [if_pos rfl, further_of_isSubByte address items hsub, position, mk.injEq]
      omega
    | false => rw [if_neg Bool.false_ne_true, further_of_not_isSubByte address items hsub]
  rw [← hnext, advance]

/-- The place further on begins in its byte. -/
theorem bit_further_lt : (address.further width items).bit < 8 := by
  cases hsub : width.isSubByte with
  | true =>
    rw [further_of_isSubByte address items hsub]
    exact Nat.mod_lt _ (by decide)
  | false =>
    rw [further_of_not_isSubByte address items hsub]
    exact Nat.succ_pos 7

/-- Below one byte, the position grows by the bits of the items. -/
theorem position_further (h : width.isSubByte = true) :
    (address.further width items).position = address.position + items * width.layout.bits := by
  rw [further_of_isSubByte address items h, position]
  exact Nat.div_add_mod _ 8

/-- The place further on does not lie before the address. -/
theorem byte_le_byte_further (width : Width) :
    address.byte ≤ (address.further width items).byte := by
  cases hsub : width.isSubByte with
  | true =>
    rw [further_of_isSubByte address items hsub, position]
    dsimp only
    omega
  | false =>
    rw [further_of_not_isSubByte address items hsub]
    exact Nat.le_add_right _ _

/-- Going on from further on leads as far as going on at once. -/
theorem further_further (first second : Nat) :
    (address.further width first).further width second =
      address.further width (first + second) := by
  cases hsub : width.isSubByte with
  | true =>
    rw [further_of_isSubByte _ second hsub, position_further address first hsub,
      further_of_isSubByte address (first + second) hsub, Nat.add_mul, Nat.add_assoc]
  | false =>
    rw [further_of_not_isSubByte _ second hsub, further_of_not_isSubByte address first hsub,
      further_of_not_isSubByte address (first + second) hsub, Nat.add_mul, Nat.add_assoc]

end

/-- Advancing twice is advancing by all items at once. -/
theorem advance_bind_advance (width : Width) (address : ItemAddress) (first second : Nat) :
    (address.advance first width).bind (fun next => next.advance second width) =
      address.advance (first + second) width := by
  have hfarther := (address.further width first).byte_le_byte_further second width
  rw [further_further] at hfarther
  rw [advance_eq_further, advance_eq_further]
  by_cases hfirst : (address.further width first).byte < addressSpace
  · rw [if_pos hfirst, Option.bind_some, advance_eq_further, further_further]
  · have hboth : ¬(address.further width (first + second)).byte < addressSpace := by omega
    rw [if_neg hfirst, if_neg hboth, Option.bind_none]

/-- Advancing by some items and then by others gives what advancing by all of them gives, and
nothing when one of the two steps gives nothing. The address that is found begins in its byte; it
lies as many bits further on as the items take at widths below one byte, and as many bytes further
on as they take at the others. There is none exactly when its byte offset would be none. -/
theorem advances_add_up (width : Width) (address : ItemAddress) :
    (∀ first second,
      (address.advance first width).bind (fun next => next.advance second width) =
          address.advance (first + second) width ∧
        (address.advance (first + second) width = none ↔
          address.advance first width = none ∨
            ∃ next, address.advance first width = some next ∧
              next.advance second width = none)) ∧
    ∀ items,
      (∀ next, address.advance items width = some next →
        next.bit < 8 ∧ next.byte < addressSpace ∧
          (width.isSubByte = true →
            next.position = address.position + items * width.layout.bits) ∧
          (width.isSubByte = false →
            next.byte = address.byte + items * width.layout.bytes ∧ next.bit = 0)) ∧
      (address.advance items width = none ↔
        addressSpace ≤
          if width.isSubByte then (address.position + items * width.layout.bits) / 8
          else address.byte + items * width.layout.bytes) := by
  refine ⟨fun first second => ⟨address.advance_bind_advance width first second, ?_⟩,
    fun items => ⟨fun next h => ?_, ?_⟩⟩
  · rw [← advance_bind_advance, Option.bind_eq_none_iff]
    cases hfirst : address.advance first width with
    | none => simp
    | some next => simp
  · refine ⟨?_, ?_, fun hsub => position_advance hsub h, fun hsub => byte_advance hsub h⟩
    all_goals
      rw [advance_eq_further, Option.ite_none_right_eq_some, Option.some.injEq] at h
      obtain ⟨hbyte, rfl⟩ := h
    · exact address.bit_further_lt items
    · exact hbyte
  · have hbyte : (address.further width items).byte =
        if width.isSubByte then (address.position + items * width.layout.bits) / 8
        else address.byte + items * width.layout.bytes := by
      rw [further]
      split <;> rfl
    rw [advance_eq_further, hbyte]
    simp only [ite_eq_right_iff, reduceCtorEq, imp_false, Nat.not_lt]

/-- A nibble that is named behind the end of its byte goes one item on to the last byte of all, and
another one on to none. -/
theorem advances_add_up_of_last_byte :
    let address : ItemAddress := ⟨addressSpace - 2, 9⟩
    let last : ItemAddress := ⟨addressSpace - 1, 5⟩
    address.advance 1 .bits4 = some last ∧
      last.bit < 8 ∧ last.position = address.position + 1 * 4 ∧
      last.advance 1 .bits4 = none ∧ address.advance (1 + 1) .bits4 = none := by
  intro address last
  have hlast : address.advance 1 .bits4 = some last := by decide
  obtain ⟨hadd, hgrow⟩ := advances_add_up .bits4 address
  obtain ⟨hfound, _⟩ := hgrow 1
  obtain ⟨hbit, _, hposition, _⟩ := hfound last hlast
  have hnone : last.advance 1 .bits4 = none := by decide
  exact ⟨hlast, hbit, hposition rfl, hnone, (hadd 1 1).2.2 (.inr ⟨last, hlast, hnone⟩)⟩

end GameTrainer.ItemAddress
