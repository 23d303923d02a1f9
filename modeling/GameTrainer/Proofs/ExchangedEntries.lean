import Mathlib.Data.List.Induction
import GameTrainer.Proofs.ListSheets
import GameTrainer.Proofs.RepeatedPasses
import GameTrainer.Proofs.SameWrites

/-!
# Entries that change places

A user moves entries up and down a list. A patch that is no conditional reads what it may write
only, so it neither sees nor undoes what a patch did that writes elsewhere. Main statement: two
such patches, one behind the other among the enabled ones and not behind a conditional, can be
exchanged. Memory comes out the same after both, so all that follows in the list does the same,
and the pass leaves the same memory and counts the same.
-/

namespace GameTrainer

theorem FrameTally.add_right_comm (first second third : FrameTally) :
    (first.add second).add third = (first.add third).add second := by
  simp only [add, Nat.add_right_comm]

namespace Patch

/-- What the turn of a patch that is not skipped adds to the tally. -/
def counts (patch : Patch) (memory : Bytes) : FrameTally :=
  match memory.readItem patch.start patch.width patch.bigEndian with
  | some current =>
    if patch.operation.writes then
      let result := patch.write memory current
      { evaluated := 1, writes := result.written, outOfRange := result.missed }
    else { evaluated := 1 }
  | none => { outOfRange := 1 }

/-- Carrying a patch out makes the same writes to memories that are alike for it, and counts the
same. -/
theorem Alike.carriedOut {patch : Patch} {first second : Bytes} (h : patch.Alike first second) :
    Bytes.SameWrites first second (patch.carriedOut first) (patch.carriedOut second) ∧
      patch.counts first = patch.counts second := by
  by_cases hholds : Bytes.Holds first.size patch.start patch.width
  · obtain ⟨current, hcurrent⟩ := Bytes.exists_readItem patch.bigEndian hholds
    obtain ⟨found, hfound⟩ := Bytes.exists_readItem patch.bigEndian (h.size ▸ hholds)
    rw [Patch.carriedOut, Patch.carriedOut, counts, counts, hcurrent, hfound]
    cases hwrites : patch.operation.writes with
    | false => exact ⟨.refl h.size, rfl⟩
    | true =>
      obtain ⟨hmemory, hwritten, hmissed⟩ := h.write hwrites hcurrent hfound
      dsimp only
      rw [if_pos rfl, if_pos rfl, if_pos rfl, if_pos rfl, hwritten, hmissed]
      exact ⟨hmemory, rfl⟩
  · have hnone : first.readItem patch.start patch.width patch.bigEndian = none :=
      Bytes.readItem_eq_none hholds
    have hother : second.readItem patch.start patch.width patch.bigEndian = none :=
      Bytes.readItem_eq_none (h.size ▸ hholds)
    rw [Patch.carriedOut, Patch.carriedOut, counts, counts, hnone, hother]
    exact ⟨.refl h.size, rfl⟩

/-- Carrying a patch out leaves the bits that it may not write. -/
theorem bit?_carriedOut_of_not_mayWrite {patch : Patch} {memory : Bytes} {size position : Nat}
    (hsize : memory.size = size) (h : ¬patch.MayWrite size position) :
    (patch.carriedOut memory).bit? position = memory.bit? position := by
  by_contra hchanged
  exact h (hsize ▸ mayWrite_of_bit?_carriedOut_ne hchanged)

/-- No bit may be written by both of two patches, in a memory of some size. -/
def Apart (size : Nat) (one other : Patch) : Prop :=
  ∀ position, one.MayWrite size position → ¬other.MayWrite size position

instance (size : Nat) (one other : Patch) : Decidable (one.Apart size other) :=
  decidable_of_iff
    (∀ position < 8 * size, one.MayWrite size position → ¬other.MayWrite size position)
    ⟨fun h position hone => h position hone.lt hone, fun h position _ => h position⟩

namespace Apart

variable {one other : Patch} {memory : Bytes} (h : one.Apart memory.size other)
include h

theorem symm : other.Apart memory.size one :=
  fun position hother hone => h position hone hother

/-- Memory is alike for a patch before and after the other one is carried out. -/
theorem alike : one.Alike memory (other.carriedOut memory) where
  size := (other.size_carriedOut memory).symm
  values := Or.inr fun position hone =>
    (bit?_carriedOut_of_not_mayWrite rfl (h position hone)).symm

/-- A patch counts the same before and after the other one. -/
theorem counts_carriedOut : one.counts (other.carriedOut memory) = one.counts memory :=
  h.alike.carriedOut.2.symm

/-- A bit that one of the patches may write comes out the same in both orders. -/
theorem bit?_carriedOut_comm {position : Nat} (hone : one.MayWrite memory.size position) :
    (other.carriedOut (one.carriedOut memory)).bit? position =
      (one.carriedOut (other.carriedOut memory)).bit? position := by
  have hother : ¬other.MayWrite memory.size position := h position hone
  rw [bit?_carriedOut_of_not_mayWrite (one.size_carriedOut memory) hother]
  rcases h.alike.carriedOut.1.bits position with hsame | ⟨hfirst, hbehind⟩
  · exact hsame
  · rw [hfirst, hbehind, bit?_carriedOut_of_not_mayWrite rfl hother]

/-- Two patches leave the same memory in either order. -/
theorem carriedOut_comm :
    other.carriedOut (one.carriedOut memory) = one.carriedOut (other.carriedOut memory) := by
  apply Bytes.eq_of_bit?
  intro position
  by_cases hone : one.MayWrite memory.size position
  · exact h.bit?_carriedOut_comm hone
  · by_cases hother : other.MayWrite memory.size position
    · exact (h.symm.bit?_carriedOut_comm hother).symm
    · rw [bit?_carriedOut_of_not_mayWrite (one.size_carriedOut memory) hother,
        bit?_carriedOut_of_not_mayWrite (other.size_carriedOut memory) hone,
        bit?_carriedOut_of_not_mayWrite rfl hone, bit?_carriedOut_of_not_mayWrite rfl hother]

end Apart

end Patch

namespace FramePass

/-- The turn of a patch that is no conditional, and is not skipped, carries the patch out, counts
it and makes no later patch be skipped. -/
theorem silent_applyPatch_eq {pass : FramePass} {patch : Patch} (hskip : pass.skipNext = false)
    (hfree : patch.operation.isConditional = false) (now : Nat) :
    (pass.applyPatch patch now).2.silent =
      { memory := patch.carriedOut pass.memory
        tally := pass.tally.add (patch.counts pass.memory) } := by
  have hcondition : patch.operation.condition? = none :=
    Option.isNone_iff_eq_none.1 (Option.isSome_eq_false_iff.1 hfree)
  rw [applyPatch, hskip, if_neg Bool.false_ne_true, Patch.carriedOut, Patch.counts]
  cases pass.memory.readItem patch.start patch.width patch.bigEndian with
  | none =>
    dsimp only
    rw [hfree]
    rfl
  | some current =>
    dsimp only
    rw [evaluate, hcondition]
    cases patch.operation.writes with
    | true => rfl
    | false =>
      dsimp only [silent]
      rw [hskip]
      rfl

/-- Two patches that are no conditionals and write apart do the same in either order. -/
theorem silent_applyPatch_comm {pass : FramePass} {one other : Patch}
    (hskip : pass.skipNext = false) (hone : one.operation.isConditional = false)
    (hother : other.operation.isConditional = false)
    (hapart : one.Apart pass.memory.size other) (now : Nat) :
    ((pass.applyPatch one now).2.applyPatch other now).2.silent =
      ((pass.applyPatch other now).2.applyPatch one now).2.silent := by
  have hturn : ∀ {first second : Patch}, first.operation.isConditional = false →
      second.operation.isConditional = false →
        ((pass.applyPatch first now).2.applyPatch second now).2.silent =
          { memory := second.carriedOut (first.carriedOut pass.memory)
            tally := (pass.tally.add (first.counts pass.memory)).add
              (second.counts (first.carriedOut pass.memory)) } := by
    intro first second hfirst hsecond
    have hafter := silent_applyPatch_eq hskip hfirst now
    have hfree : (pass.applyPatch first now).2.skipNext = false := congrArg skipNext hafter
    have hmemory : (pass.applyPatch first now).2.memory = first.carriedOut pass.memory :=
      congrArg memory hafter
    have htally : (pass.applyPatch first now).2.tally =
        pass.tally.add (first.counts pass.memory) := congrArg tally hafter
    rw [silent_applyPatch_eq hfree hsecond now, hmemory, htally]
  rw [hturn hone hother, hturn hother hone, hapart.carriedOut_comm, hapart.counts_carriedOut,
    hapart.symm.counts_carriedOut, FrameTally.add_right_comm]

/-- Entries without an enabled patch leave memory, the pending skip and the tally. -/
theorem silent_applyAll_of_enabledPatches_eq_nil (pass : FramePass) (now : Nat)
    {cheats : List Cheat} (h : enabledPatches cheats = []) :
    (pass.applyAll now cheats).2.silent = pass.silent := by
  induction cheats generalizing pass with
  | nil => rfl
  | cons cheat rest ih =>
    rw [enabledPatches, List.filterMap_eq_nil_iff, List.forall_mem_cons,
      ← List.filterMap_eq_nil_iff] at h
    obtain ⟨events, hevents⟩ := (pass.applyCheat_of_enabledPatch?_eq_none now h.1).2
    rw [applyAll]
    dsimp only
    rw [ih _ h.2, hevents]
    rfl

/-- A skip is pending behind a list only if its last enabled patch is a conditional. -/
theorem skipNext_applyAll {pass : FramePass} (hskip : pass.skipNext = false) (now : Nat)
    {cheats : List Cheat}
    (hlast : ∀ gate, (enabledPatches cheats).getLast? = some gate →
      gate.operation.isConditional = false) :
    (pass.applyAll now cheats).2.skipNext = false := by
  -- From the end, up to the last entry that holds an enabled patch.
  induction cheats using List.reverseRecOn with
  | nil => exact hskip
  | append_singleton front cheat ih =>
    have happend : enabledPatches (front ++ [cheat]) =
        enabledPatches front ++ cheat.enabledPatch?.toList := by
      rw [enabledPatches, List.filterMap_append, enabledPatches]
      cases h : cheat.enabledPatch? with
      | none => rw [List.filterMap_cons_none h, List.filterMap_nil, Option.toList_none]
      | some patch => rw [List.filterMap_cons_some h, List.filterMap_nil, Option.toList_some]
    rw [happend] at hlast
    have hnext : (pass.applyAll now (front ++ [cheat])).2 =
        ((pass.applyAll now front).2.applyCheat cheat now).2 :=
      pass.applyAll_append now front [cheat]
    rw [hnext]
    cases hpatch : cheat.enabledPatch? with
    | none =>
      rw [hpatch, Option.toList_none, List.append_nil] at hlast
      obtain ⟨events, hevents⟩ :=
        ((pass.applyAll now front).2.applyCheat_of_enabledPatch?_eq_none now hpatch).2
      rw [hevents]
      exact ih hlast
    | some patch =>
      rw [hpatch, Option.toList_some, List.getLast?_concat] at hlast
      have hturn := ((pass.applyAll now front).2.lawful_turn patch now).bars
      rw [((pass.applyAll now front).2.applyCheat_of_enabledPatch?_eq_some now hpatch).2]
      rw [Bool.eq_false_iff]
      intro hbarred
      have hconditional := (hturn.1 hbarred).2.1
      exact absurd (hconditional.symm.trans (hlast patch rfl)) Bool.noConfusion

/-- Passing over two such entries and whatever without an enabled patch stands between them does
the same when they have changed places, and so does all that follows. -/
theorem silent_applyAll_exchange {pass : FramePass} {first second : Cheat} {one other : Patch}
    {between : List Cheat} (hfirst : first.enabledPatch? = some one)
    (hsecond : second.enabledPatch? = some other) (hbetween : enabledPatches between = [])
    (hskip : pass.skipNext = false) (hone : one.operation.isConditional = false)
    (hother : other.operation.isConditional = false)
    (hapart : one.Apart pass.memory.size other) (now : Nat) (back : List Cheat) :
    (pass.applyAll now (second :: (between ++ first :: back))).2.silent =
      (pass.applyAll now (first :: (between ++ second :: back))).2.silent := by
  have hreach : ∀ {cheat next : Cheat} {patch later : Patch},
      cheat.enabledPatch? = some patch → next.enabledPatch? = some later →
        (pass.applyAll now (cheat :: (between ++ next :: back))).2.silent =
          (((pass.applyPatch patch now).2.applyPatch later now).2.applyAll now back).2.silent := by
    intro cheat next patch later hpatch hlater
    let reached := (pass.applyPatch patch now).2
    have hover := reached.silent_applyAll_of_enabledPatches_eq_nil now hbetween
    have hrest := silent_applyAll_congr hover
      (rfl : (next :: back).map Cheat.bare = (next :: back).map Cheat.bare) now now
    have hthen := (reached.applyCheat_of_enabledPatch?_eq_some now hlater).2
    rw [applyAll]
    dsimp only
    rw [(pass.applyCheat_of_enabledPatch?_eq_some now hpatch).2, applyAll_append, hrest, applyAll]
    dsimp only
    rw [hthen]
  rw [hreach hsecond hfirst, hreach hfirst hsecond]
  exact silent_applyAll_congr (silent_applyPatch_comm hskip hother hone hapart.symm now) rfl now now

end FramePass

/-- Two entries that hold enabled patches, with none between them, can be exchanged when neither
patch is a conditional, the enabled patch before them is none either, and no bit may be written by
both. What each of them reads to write, it may write. A pass then leaves the same memory and the
same tally, whatever follows, and so it does when the entries are numbered anew. -/
theorem exchanged_entries_leave_the_same {front between back : List Cheat} {first second : Cheat}
    {one other : Patch} {memory : Bytes} (hfirst : first.enabledPatch? = some one)
    (hsecond : second.enabledPatch? = some other) (hbetween : enabledPatches between = [])
    (hfront : ∀ gate, (enabledPatches front).getLast? = some gate →
      gate.operation.isConditional = false)
    (hone : one.operation.isConditional = false) (hother : other.operation.isConditional = false)
    (hapart : one.Apart memory.size other) (now : Nat) :
    let given := front ++ first :: (between ++ second :: back)
    let exchanged := front ++ second :: (between ++ first :: back)
    let left := fun cheats =>
      ((applyFrame cheats memory now).2.memory, (applyFrame cheats memory now).2.tally)
    left exchanged = left given ∧ left (CheatList.renumber exchanged) = left given := by
  intro given exchanged left
  have hsame : left exchanged = left given := by
    have hbegin : ({ memory := memory } : FramePass).skipNext = false := rfl
    have hskip := FramePass.skipNext_applyAll hbegin now hfront
    have hsize : (FramePass.applyAll { memory := memory } now front).2.memory.size = memory.size :=
      FramePass.size_applyAll ..
    have hsilent := FramePass.silent_applyAll_exchange hfirst hsecond hbetween hskip hone hother
      (hsize.symm ▸ hapart) now back
    rw [← FramePass.applyAll_append, ← FramePass.applyAll_append] at hsilent
    have hmemory := congrArg FramePass.memory hsilent
    have htally := congrArg FramePass.tally hsilent
    exact Prod.ext hmemory htally
  refine ⟨hsame, ?_⟩
  have hbare : (CheatList.renumber exchanged).map Cheat.bare = exchanged.map Cheat.bare :=
    CheatList.map_renumber exchanged fun _ _ => rfl
  obtain ⟨hmemory, htally⟩ := applyFrame_congr hbare memory now now
  exact (Prod.ext hmemory htally).trans hsame

/-- Two rows of pairs of bits that stand side by side in three bytes, the second of which runs over
their end, are exchanged over an entry that is switched off and a code for the core. The conditional
behind them finds the same in both orders. -/
theorem exchanged_entries_leave_the_same_of_interleaved_rows :
    let on (patch : Patch) : Cheat := { enabled := true, effect := .patch patch }
    let row : Patch :=
      { bitMask := 0x03, width := .bits2, operation := .increase, value := 1,
        repetition := { count := 3, addToValue := 1, addToAddress := 2 } }
    let other : Patch :=
      { bitMask := 0x0C, width := .bits2, operation := .decrease, value := 1,
        repetition := { count := 5, addToAddress := 4 } }
    let front := [on { operation := .runNextIfGt, value := 0 }, on { address := 2, value := 0x3C }]
    let between := [{ effect := .patch { value := 9 } }, { enabled := true, effect := .code "0A" }]
    let back := [on { operation := .runNextIfEq, value := 0x34 }, on { address := 1, value := 7 }]
    let memory : Bytes := #[0x1B, 0xFF, 0]
    let given := (applyFrame (front ++ on row :: (between ++ on other :: back)) memory 0).2
    let exchanged := (applyFrame (front ++ on other :: (between ++ on row :: back)) memory 0).2
    row.Apart memory.size other ∧ given.memory = #[0x34, 0x07, 0x38] ∧
      exchanged.memory = given.memory ∧ exchanged.tally = given.tally := by
  intro on row other front between back memory given exchanged
  have hapart : row.Apart memory.size other := by decide
  have hfront : ∀ gate, (enabledPatches front).getLast? = some gate →
      gate.operation.isConditional = false := by
    intro gate hgate
    cases hgate
    rfl
  have hsame : (exchanged.memory, exchanged.tally) = (given.memory, given.tally) :=
    (exchanged_entries_leave_the_same rfl rfl rfl hfront rfl rfl hapart 0).1
  obtain ⟨hmemory, htally⟩ := Prod.ext_iff.1 hsame
  exact ⟨hapart, by decide, hmemory, htally⟩

end GameTrainer
