import GameTrainer.Proofs.ForwardWrites
import GameTrainer.Proofs.PassTurns
import GameTrainer.Proofs.PinningPass

/-!
# The bits that a pass may change

A patch may change the bits of the items that it writes: those of its writes that lie wholly
in memory, if its operation writes at all and its first item lies there. Main statement: a
pass keeps the size of memory, and every bit that an entry changes is one that its patch may
change. So an entry that is switched off, skipped or left to the core changes nothing, nor
does a conditional, the other bits of a byte are kept, and of an item that runs over the end
of memory no bit is written.
-/

namespace GameTrainer

namespace Patch

/-- A bit that a patch may change in a memory of some size. -/
structure MayWrite (size : Nat) (patch : Patch) (position : Nat) : Prop where
  /-- The operation writes. -/
  writes : patch.operation.writes = true
  /-- The first item lies in memory. -/
  begins : Bytes.Holds size patch.start patch.width
  /-- One of the writes goes to an item in memory that takes the bit. -/
  takes : ∃ i < patch.writeCount, Bytes.Holds size (patch.itemAt i) patch.width ∧
    (patch.itemAt i).Takes patch.width position

instance (size : Nat) (patch : Patch) (position : Nat) :
    Decidable (patch.MayWrite size position) :=
  decidable_of_iff
    (patch.operation.writes = true ∧ Bytes.Holds size patch.start patch.width ∧
      ∃ i < patch.writeCount, Bytes.Holds size (patch.itemAt i) patch.width ∧
        (patch.itemAt i).Takes patch.width position)
    ⟨fun h => ⟨h.1, h.2.1, h.2.2⟩, fun h => ⟨h.writes, h.begins, h.takes⟩⟩

variable {patch : Patch}

/-- A patch may only change bits of memory. -/
theorem MayWrite.lt {size position : Nat} (h : patch.MayWrite size position) :
    position < 8 * size := by
  obtain ⟨i, _, hholds, htakes⟩ := h.takes
  have hinside := htakes.inside
  unfold Bytes.Holds at hholds
  omega

/-- A patch may change no bit before its first item. -/
theorem MayWrite.start_le {size position : Nat} (h : patch.MayWrite size position) :
    patch.start.position ≤ position := by
  obtain ⟨i, _, _, htakes⟩ := h.takes
  have hfirst := htakes.first_le
  rw [firstBit_itemAt] at hfirst
  exact Nat.le_trans (Nat.le_add_right _ _) hfirst

/-- A bit that a patch may change is taken by no item of its writes that runs over the end of
memory, since the items of different writes are the same or share no bit. -/
theorem MayWrite.holds {size position : Nat} (h : patch.MayWrite size position) {i : Nat}
    (htakes : (patch.itemAt i).Takes patch.width position) :
    Bytes.Holds size (patch.itemAt i) patch.width := by
  obtain ⟨j, _, hholds, hother⟩ := h.takes
  by_cases hstays : patch.repetition.addToAddress = 0
  · rw [itemAt_of_stays _ hstays]
    exact h.begins
  · by_cases hij : i = j
    · rw [hij]
      exact hholds
    · exact absurd hother (not_takes_itemAt hstays hij htakes)

/-- The writes of a patch keep the bits that none of their items in memory takes. -/
theorem bit?_write_of_not_takes {memory : Bytes} {position : Nat}
    (h : ∀ i < patch.writeCount, Bytes.Holds memory.size (patch.itemAt i) patch.width →
      ¬(patch.itemAt i).Takes patch.width position) (current : UInt32) :
    (patch.write memory current).memory.bit? position = memory.bit? position := by
  by_cases hstays : patch.repetition.addToAddress = 0
  · rw [write, if_pos hstays]
    by_cases hholds : Bytes.Holds memory.size patch.start patch.width
    · have hout := h 0 patch.writeCount_pos
      have hbit := patch.isProper_start.bit_lt
      rw [itemAt_zero] at hout
      rw [if_pos hholds]
      exact Bytes.bit?_putItem_of_not_takes _ _ _ (by omega) (hout hholds)
    · rw [if_neg hholds]
  · have hwalked := patch.walked_walk hstays patch.writeCount 0 memory
    have hcounted := hwalked.counted
    rw [write, if_neg hstays]
    apply hwalked.kept
    intro j _ hj
    have hholds := (reach?_eq_some_iff.1 (hwalked.reached j (Nat.zero_le j) hj)).2.1
    exact h j (by omega) hholds

/-- Carrying a patch out changes bits that it may change only. -/
theorem mayWrite_of_bit?_carriedOut_ne {memory : Bytes} {position : Nat}
    (h : (patch.carriedOut memory).bit? position ≠ memory.bit? position) :
    patch.MayWrite memory.size position := by
  rw [carriedOut] at h
  cases hcurrent : memory.readItem patch.start patch.width patch.bigEndian with
  | none =>
    rw [hcurrent] at h
    exact absurd rfl h
  | some current =>
    rw [hcurrent] at h
    cases hwrites : patch.operation.writes with
    | false =>
      rw [hwrites] at h
      exact absurd rfl h
    | true =>
      rw [hwrites] at h
      by_cases htakes : ∃ i < patch.writeCount,
          Bytes.Holds memory.size (patch.itemAt i) patch.width ∧
            (patch.itemAt i).Takes patch.width position
      · exact ⟨hwrites, Bytes.holds_of_readItem hcurrent, htakes⟩
      · simp only [not_exists, not_and] at htakes
        exact absurd (bit?_write_of_not_takes htakes current) h

end Patch

namespace FramePass

/-- Passing over an entry changes memory only if the entry holds an enabled patch that is not to
be skipped, and only bits that the patch may change. -/
theorem mayWrite_of_bit?_applyCheat_ne {pass : FramePass} {cheat : Cheat} {now position : Nat}
    (h : (pass.applyCheat cheat now).2.memory.bit? position ≠ pass.memory.bit? position) :
    pass.skipNext = false ∧ ∃ patch, cheat.enabledPatch? = some patch ∧
      patch.MayWrite pass.memory.size position := by
  cases hpatch : cheat.enabledPatch? with
  | none =>
    obtain ⟨events, hevents⟩ := (pass.applyCheat_of_enabledPatch?_eq_none now hpatch).2
    rw [hevents] at h
    exact absurd rfl h
  | some patch =>
    have hmemory := (pass.lawful_turn patch now).memory
    change (pass.applyPatch patch now).2.memory =
      if pass.skipNext then pass.memory else patch.carriedOut pass.memory at hmemory
    rw [(pass.applyCheat_of_enabledPatch?_eq_some now hpatch).2, hmemory] at h
    cases hskip : pass.skipNext with
    | true =>
      rw [hskip] at h
      exact absurd rfl h
    | false =>
      rw [hskip] at h
      exact ⟨rfl, patch, rfl, Patch.mayWrite_of_bit?_carriedOut_ne h⟩

/-- A bit that a pass over a list changes is changed by one of its entries. -/
theorem exists_of_bit?_applyAll_ne {pass : FramePass} {cheats : List Cheat} {now position : Nat}
    (h : (pass.applyAll now cheats).2.memory.bit? position ≠ pass.memory.bit? position) :
    ∃ front cheat back patch, cheats = front ++ cheat :: back ∧
      cheat.enabledPatch? = some patch ∧ (pass.applyAll now front).2.skipNext = false ∧
      patch.MayWrite pass.memory.size position := by
  induction cheats generalizing pass with
  | nil => exact absurd rfl h
  | cons cheat rest ih =>
    by_cases hfirst :
        (pass.applyCheat cheat now).2.memory.bit? position = pass.memory.bit? position
    · rw [applyAll, ← hfirst] at h
      obtain ⟨front, other, back, patch, hsplit, hpatch, hskip, hwrite⟩ := ih h
      have hsize : (pass.applyCheat cheat now).2.memory.size = pass.memory.size :=
        size_applyAll pass now [cheat]
      rw [hsize] at hwrite
      refine ⟨cheat :: front, other, back, patch, ?_, hpatch, hskip, hwrite⟩
      rw [hsplit, List.cons_append]
    · obtain ⟨hskip, patch, hpatch, hwrite⟩ := mayWrite_of_bit?_applyCheat_ne hfirst
      exact ⟨[], cheat, rest, patch, rfl, hpatch, hskip, hwrite⟩

end FramePass

/-- A pass over a list keeps the size of memory. Every bit that it changes is one that the patch
of an enabled entry may change which the pass does not skip. And what passing over one entry
changes, behind those before it, are bits that its own patch may change, if the entry is enabled
and not skipped; no item of this patch that runs over the end of memory takes one of them. -/
theorem changed_bits_are_of_written_items (cheats : List Cheat) (memory : Bytes) (now : Nat) :
    let pass := fun entries => (applyFrame entries memory now).2
    (pass cheats).memory.size = memory.size ∧
      (∀ position, (pass cheats).memory.bit? position ≠ memory.bit? position →
        ∃ front cheat back patch, cheats = front ++ cheat :: back ∧
          cheat.enabledPatch? = some patch ∧ (pass front).skipNext = false ∧
          patch.MayWrite memory.size position) ∧
      ∀ front cheat back, cheats = front ++ cheat :: back → ∀ position,
        (pass (front ++ [cheat])).memory.bit? position ≠ (pass front).memory.bit? position →
          (pass front).skipNext = false ∧ ∃ patch, cheat.enabledPatch? = some patch ∧
            patch.MayWrite memory.size position ∧
            ∀ i, (patch.itemAt i).Takes patch.width position →
              Bytes.Holds memory.size (patch.itemAt i) patch.width := by
  intro pass
  refine ⟨FramePass.size_applyAll _ now cheats,
    fun _ hchanged => FramePass.exists_of_bit?_applyAll_ne hchanged, ?_⟩
  intro front cheat back _ position hchanged
  have hsize : (pass front).memory.size = memory.size := FramePass.size_applyAll _ now front
  have hnext : pass (front ++ [cheat]) = ((pass front).applyCheat cheat now).2 :=
    FramePass.applyAll_append _ now front [cheat]
  rw [hnext] at hchanged
  obtain ⟨hskip, patch, hpatch, hwrite⟩ := FramePass.mayWrite_of_bit?_applyCheat_ne hchanged
  rw [hsize] at hwrite
  exact ⟨hskip, patch, hpatch, hwrite, fun _ htakes => hwrite.holds htakes⟩

end GameTrainer
