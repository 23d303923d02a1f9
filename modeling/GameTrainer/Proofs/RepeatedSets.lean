import GameTrainer.Proofs.RepeatedPasses
import GameTrainer.Proofs.SameWrites

/-!
# Passes that set the same again

The value that an item is set to does not depend on what memory held. So two passes over a list
that only sets items, on memories in which its conditionals find the same, leave every bit the
same in both, or in each as it was. Main statement: if no conditional of the list reads a bit
that one of its sets may write, a second pass leaves memory as the first one left it and counts
the same.
-/

namespace GameTrainer

namespace Patch

/-- A patch that does the same on two memories: it sets items or writes nothing, and a
conditional finds the same bits in both if its item lies in them. -/
structure Steady (first second : Bytes) (patch : Patch) : Prop where
  /-- It writes only what does not depend on memory. -/
  operation : patch.operation = .set ∨ patch.operation.writes = false
  /-- What it decides by is the same in both memories. -/
  agrees : patch.operation.isConditional = true →
    Bytes.Holds first.size patch.start patch.width →
      ∀ position, patch.start.Takes patch.width position →
        first.bit? position = second.bit? position

end Patch

namespace FramePass

/-- Two passes that did the same on two memories. -/
structure Abreast (first second : Bytes) (one other : FramePass) : Prop where
  /-- They wrote the same. -/
  memory : Bytes.SameWrites first second one.memory other.memory
  /-- Both are to skip the next patch, or neither. -/
  skipNext : one.skipNext = other.skipNext
  /-- They counted the same. -/
  tally : one.tally = other.tally

namespace Abreast

variable {first second : Bytes} {one other : FramePass} (h : Abreast first second one other)
include h

/-- A steady patch whose item has a value keeps passes abreast. -/
theorem evaluate {patch : Patch} (hsteady : patch.Steady first second) {current found : UInt32}
    (hcurrent : one.memory.readItem patch.start patch.width patch.bigEndian = some current)
    (hfound : other.memory.readItem patch.start patch.width patch.bigEndian = some found)
    (now : Nat) :
    Abreast first second (one.evaluate patch current now).2
      (other.evaluate patch found now).2 := by
  rw [FramePass.evaluate, FramePass.evaluate]
  cases htest : patch.operation.condition? with
  | some test =>
    have hconditional : patch.operation.isConditional = true := by
      rw [Operation.isConditional, htest]
      rfl
    have hholds := Bytes.holds_of_readItem hcurrent
    rw [h.memory.kept] at hholds
    have hvalue := h.memory.readItem patch.bigEndian patch.isProper_start.bit_lt
      (hsteady.agrees hconditional hholds)
    rw [hcurrent, hfound, Option.some.injEq] at hvalue
    dsimp only
    rw [hvalue, h.tally]
    exact ⟨h.memory, rfl, rfl⟩
  | none =>
    dsimp only
    cases hwrites : patch.operation.writes with
    | false =>
      rw [if_neg Bool.false_ne_true, if_neg Bool.false_ne_true, h.tally]
      exact ⟨h.memory, h.skipNext, rfl⟩
    | true =>
      have hset := hsteady.operation.resolve_right (ne_false_of_eq_true hwrites)
      have halike : patch.Alike one.memory other.memory := ⟨h.memory.size, Or.inl hset⟩
      obtain ⟨hmemory, hwritten, hmissed⟩ := halike.write hwrites hcurrent hfound
      rw [if_pos rfl, if_pos rfl, h.tally, hwritten, hmissed]
      exact ⟨h.memory.trans hmemory, rfl, rfl⟩

/-- A steady patch keeps passes abreast. -/
theorem applyPatch {patch : Patch} (hsteady : patch.Steady first second) (now : Nat) :
    Abreast first second (one.applyPatch patch now).2 (other.applyPatch patch now).2 := by
  cases hskip : one.skipNext with
  | true =>
    rw [applyPatch_of_skipNext patch now hskip,
      applyPatch_of_skipNext patch now (h.skipNext.symm.trans hskip), h.tally]
    exact ⟨h.memory, rfl, rfl⟩
  | false =>
    have hother := h.skipNext.symm.trans hskip
    by_cases hholds : Bytes.Holds one.memory.size patch.start patch.width
    · obtain ⟨current, hcurrent⟩ := Bytes.exists_readItem patch.bigEndian hholds
      obtain ⟨found, hfound⟩ := Bytes.exists_readItem patch.bigEndian (h.memory.size ▸ hholds)
      rw [FramePass.applyPatch, FramePass.applyPatch, hskip, hother, if_neg Bool.false_ne_true,
        if_neg Bool.false_ne_true, hcurrent, hfound]
      exact h.evaluate hsteady hcurrent hfound now
    · rw [applyPatch_of_not_holds now hskip hholds,
        applyPatch_of_not_holds now hother (h.memory.size ▸ hholds), h.tally]
      exact ⟨h.memory, rfl, rfl⟩

/-- An entry keeps passes abreast if its patch is steady, when it holds an enabled one. -/
theorem applyCheat {cheat : Cheat}
    (hsteady : ∀ patch, cheat.enabledPatch? = some patch → patch.Steady first second)
    (now : Nat) :
    Abreast first second (one.applyCheat cheat now).2 (other.applyCheat cheat now).2 := by
  cases hpatch : cheat.enabledPatch? with
  | none =>
    obtain ⟨events, hone⟩ := (one.applyCheat_of_enabledPatch?_eq_none now hpatch).2
    obtain ⟨others, hother⟩ := (other.applyCheat_of_enabledPatch?_eq_none now hpatch).2
    rw [hone, hother]
    exact ⟨h.memory, h.skipNext, h.tally⟩
  | some patch =>
    rw [(one.applyCheat_of_enabledPatch?_eq_some now hpatch).2,
      (other.applyCheat_of_enabledPatch?_eq_some now hpatch).2]
    exact h.applyPatch (hsteady patch hpatch) now

/-- Passes over a list of steady patches stay abreast. -/
theorem applyAll {cheats : List Cheat}
    (hsteady : ∀ cheat ∈ cheats, ∀ patch, cheat.enabledPatch? = some patch →
      patch.Steady first second)
    (now : Nat) :
    Abreast first second (one.applyAll now cheats).2 (other.applyAll now cheats).2 := by
  induction cheats generalizing one other with
  | nil => exact h
  | cons cheat rest ih =>
    obtain ⟨hfirst, hrest⟩ := List.forall_mem_cons.1 hsteady
    rw [FramePass.applyAll, FramePass.applyAll]
    exact ih (h.applyCheat hfirst now) hrest

end Abreast

end FramePass

/-- The enabled patches of a list set items, do nothing or are conditionals, and in a memory of
some size no set may write a bit that a conditional reads. -/
structure SetsApart (size : Nat) (cheats : List Cheat) : Prop where
  /-- Patches that add or take away are switched off. -/
  operation : ∀ patch ∈ enabledPatches cheats, patch.operation = .set ∨
    patch.operation = .disabled ∨ patch.operation.isConditional = true
  /-- The item of a conditional, if it lies in memory, shares no bit with what is set. -/
  apart : ∀ gate ∈ enabledPatches cheats, gate.operation.isConditional = true →
    Bytes.Holds size gate.start gate.width →
      ∀ pin ∈ enabledPatches cheats, pin.operation = .set →
        ∀ position, gate.start.Takes gate.width position → ¬pin.MayWrite size position

namespace SetsApart

variable {cheats : List Cheat} {memory : Bytes}

/-- An enabled patch that writes is a set. -/
theorem operation_of_writes {size : Nat} (h : SetsApart size cheats) {patch : Patch}
    (hpatch : patch ∈ enabledPatches cheats) (hwrites : patch.operation.writes = true) :
    patch.operation = .set := by
  rcases h.operation patch hpatch with hset | hdisabled | hconditional
  · exact hset
  · rw [hdisabled] at hwrites
    cases hwrites
  · obtain ⟨test, htest⟩ := Option.isSome_iff_exists.1 hconditional
    rw [Operation.writes_of_condition? htest] at hwrites
    cases hwrites

/-- The patches of such a list are steady on a memory and on what a pass leaves of it. -/
theorem steady (h : SetsApart memory.size cheats) {patch : Patch}
    (hpatch : patch ∈ enabledPatches cheats) (now : Nat) :
    patch.Steady memory (applyFrame cheats memory now).2.memory where
  operation := by
    cases hwrites : patch.operation.writes with
    | false => exact Or.inr rfl
    | true => exact Or.inl (h.operation_of_writes hpatch hwrites)
  agrees := by
    intro hconditional hholds position htakes
    by_cases hsame :
        (applyFrame cheats memory now).2.memory.bit? position = memory.bit? position
    · exact hsame.symm
    · obtain ⟨front, cheat, back, pin, hsplit, hfound, _, hwrite⟩ :=
        FramePass.exists_of_bit?_applyAll_ne hsame
      have hpin : pin ∈ enabledPatches cheats := by
        rw [hsplit]
        exact List.mem_filterMap.2 ⟨cheat, List.mem_append_cons_self, hfound⟩
      have hset := h.operation_of_writes hpin hwrite.writes
      exact absurd hwrite (h.apart patch hpatch hconditional hholds pin hpin hset position htakes)

end SetsApart

/-- If the enabled patches of a list only set items, do nothing or are conditionals, and no set
may write a bit that a conditional reads, then a second pass, at whatever time, leaves memory as
the first one left it and counts the same. The sets may repeat and share bits among themselves. -/
theorem second_pass_changes_nothing {cheats : List Cheat} {memory : Bytes}
    (h : SetsApart memory.size cheats) (now later : Nat) :
    let first := applyFrame cheats memory now
    let second := applyFrame first.1 first.2.memory later
    second.2.memory = first.2.memory ∧ second.2.tally = first.2.tally := by
  intro first second
  -- The first pass and one over the same list on what it left go side by side.
  let again := applyFrame cheats first.2.memory now
  have hsize : memory.size = first.2.memory.size :=
    (FramePass.size_applyAll { memory := memory } now cheats).symm
  have hstart : FramePass.Abreast memory first.2.memory { memory := memory }
      { memory := first.2.memory } := ⟨.refl hsize, rfl, rfl⟩
  have hsteady : ∀ cheat ∈ cheats, ∀ patch, cheat.enabledPatch? = some patch →
      patch.Steady memory first.2.memory := by
    intro cheat hcheat patch hpatch
    exact h.steady (List.mem_filterMap.2 ⟨cheat, hcheat, hpatch⟩) now
  have habreast : FramePass.Abreast memory first.2.memory first.2 again.2 :=
    hstart.applyAll hsteady now
  have hrumbles := map_bare_applyFrame cheats memory now
  obtain ⟨hmemory, htally⟩ := applyFrame_congr hrumbles first.2.memory later now
  exact ⟨hmemory.trans habreast.memory.eq_of_again, htally.trans habreast.tally.symm⟩

/-- Three words from the second byte on and a pair of bits in one of them are set, behind a
conditional on the first byte. -/
theorem second_pass_changes_nothing_of_overlapping_sets :
    let gate : Patch := { operation := .runNextIfGt, value := 6 }
    let row : Patch :=
      { address := 1, width := .bits16, value := 0xABCD,
        repetition := { count := 4, addToValue := 1 } }
    let pair : Patch := { address := 4, bitMask := 0x0C, width := .bits2, value := 1 }
    let idle : Patch := { operation := .disabled }
    let grow : Patch := { operation := .increase, value := 1 }
    let cheats : List Cheat :=
      [{ enabled := true, effect := .patch gate }, { enabled := true, effect := .patch row },
        { enabled := false, effect := .patch grow }, { enabled := true, effect := .patch pair },
        { enabled := true, effect := .patch idle }]
    let memory : Bytes := #[7, 0, 0, 0, 0, 0, 0]
    let first := applyFrame cheats memory 40
    let second := applyFrame first.1 first.2.memory 90
    first.2.memory = #[7, 0xCD, 0xAB, 0xCE, 0xA7, 0xCF, 0xAB] ∧
      second.2.memory = first.2.memory ∧ second.2.tally = first.2.tally := by
  intro gate row pair idle grow cheats memory first second
  have hpatches : enabledPatches cheats = [gate, row, pair, idle] := rfl
  have hgates : ∀ found ∈ enabledPatches cheats, found.operation.isConditional = true →
      found = gate := by
    rw [hpatches]
    decide
  have hpins : ∀ pin ∈ enabledPatches cheats, pin.operation = .set →
      8 ≤ pin.start.position := by
    rw [hpatches]
    decide
  have hapart : SetsApart memory.size cheats := by
    refine ⟨?_, ?_⟩
    · rw [hpatches]
      decide
    · intro found hfound hconditional _ pin hpin hset position htakes hwrite
      rw [hgates found hfound hconditional] at htakes
      have hinside : position < 8 := htakes.lt_end
      have hfirst := hpins pin hpin hset
      have hstart := hwrite.start_le
      omega
  exact ⟨by decide, second_pass_changes_nothing hapart 40 90⟩

/-- A conditional that reads what is set may have the second pass skip what the first one did. -/
example :
    let on (patch : Patch) : Cheat := { enabled := true, effect := .patch patch }
    let cheats := [on { address := 1, value := 1 }, on { operation := .runNextIfEq, value := 0 },
      on { address := 1, value := 2 }, on { address := 0, value := 3 }]
    let first := applyFrame cheats #[0, 0] 0
    let second := applyFrame first.1 first.2.memory 0
    first.2.memory = #[3, 2] ∧ second.2.memory = #[3, 1] := by
  decide

end GameTrainer
