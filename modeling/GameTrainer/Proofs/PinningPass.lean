import GameTrainer.CheatFrame
import GameTrainer.Proofs.ItemBits

/-!
# Passes that pin items

A cheat pins an item when it is switched on and sets this one item, once, to
what the item is worth in some other buffer. Main statements: cheats that are
switched off leave memory, the pending skip and the counts of a pass; and a pass
over cheats that pin copies the bits of their items from that buffer, leaves all
other bits, and counts each cheat once as evaluated and once as written.
-/

namespace GameTrainer

namespace Bytes

/-- The bits at some positions have been copied from a source, and the others left. -/
structure Copied (source before after : Bytes) (taken : Nat → Prop) : Prop where
  /-- The buffer keeps its size. -/
  size : after.size = before.size
  /-- The bits that were taken are those of the source. -/
  copied : ∀ position, taken position → after.bit? position = source.bit? position
  /-- The other bits are those of before. -/
  kept : ∀ position, ¬taken position → after.bit? position = before.bit? position

theorem Copied.refl (source buffer : Bytes) : Copied source buffer buffer fun _ => False where
  size := rfl
  copied := fun _ hfalse => hfalse.elim
  kept := fun _ _ => rfl

/-- Copying twice from one source copies what either has taken. -/
theorem Copied.trans {source before middle after : Bytes} {first second both : Nat → Prop}
    (hf : Copied source before middle first) (hs : Copied source middle after second)
    (hboth : ∀ position, both position ↔ first position ∨ second position) :
    Copied source before after both where
  size := hs.size.trans hf.size
  copied := by
    intro position ht
    by_cases hsecond : second position
    · exact hs.copied position hsecond
    · have hfirst := ((hboth position).1 ht).resolve_right hsecond
      exact (hs.kept position hsecond).trans (hf.copied position hfirst)
  kept := by
    intro position hn
    rw [hboth, not_or] at hn
    exact (hs.kept position hn.2).trans (hf.kept position hn.1)

/-- An item all of whose bits were copied has its value from the source. -/
theorem Copied.readItem {source before after : Bytes} {taken : Nat → Prop}
    (h : Copied source before after taken) (hs : before.size = source.size)
    {address : ItemAddress} {width : Width} (bigEndian : Bool) (hb : address.bit < 8)
    (ht : ∀ position, address.Takes width position → taken position) :
    after.readItem address width bigEndian = source.readItem address width bigEndian :=
  readItem_congr bigEndian (by omega) (h.size.trans hs) fun position hp =>
    h.copied position (ht position hp)

/-- Putting in what an item is worth in a source copies the item's bits. -/
theorem copied_putItem {source buffer : Bytes} {address : ItemAddress} {width : Width}
    {bigEndian : Bool} {value : UInt32} (hb : address.bit < 8) (hs : buffer.size = source.size)
    (h : source.readItem address width bigEndian = some value) :
    Copied source buffer (buffer.putItem address width bigEndian value) (address.Takes width) where
  size := size_putItem ..
  copied := by
    intro position ht
    rw [bit?_putItem_of_readItem (by omega) hs h, if_pos ht]
  kept := by
    intro position hn
    rw [bit?_putItem_of_readItem (by omega) hs h, if_neg hn]

end Bytes

/-- A patch sets one item, once, to what it is worth in a source. -/
structure Patch.Pins (source : Bytes) (width : Width) (bigEndian : Bool) (address : ItemAddress)
    (patch : Patch) : Prop where
  /-- The item is set. -/
  operation : patch.operation = .set
  /-- It is set once. -/
  repetition : patch.repetition = {}
  /-- The patch reads and writes at the width. -/
  width_eq : patch.width = width
  /-- It does so in the byte order. -/
  bigEndian_eq : patch.bigEndian = bigEndian
  /-- The patch finds the item. -/
  start : patch.start = address
  /-- The item is set to its value in the source. -/
  value : source.readItem address width bigEndian = some patch.value

/-- A cheat that is switched on and pins an item. -/
structure Cheat.Pins (source : Bytes) (width : Width) (bigEndian : Bool) (address : ItemAddress)
    (cheat : Cheat) : Prop where
  /-- It is switched on. -/
  enabled : cheat.enabled = true
  /-- It has a patch that pins the item. -/
  patch : ∃ patch, cheat.effect = .patch patch ∧ patch.Pins source width bigEndian address

/-- The writes of a patch that sets an item which lies in memory, once. -/
theorem Patch.write_once {patch : Patch} (hop : patch.operation = .set)
    (hrep : patch.repetition = {}) {memory : Bytes}
    (hs : Bytes.Holds memory.size patch.start patch.width) (current : UInt32) :
    patch.write memory current =
      ⟨memory.putItem patch.start patch.width patch.bigEndian patch.value, 1, 0⟩ := by
  have hstay : ¬patch.repetition.addToAddress = 0 := by
    rw [hrep]
    decide
  have hcount : patch.writeCount = 1 := by
    rw [writeCount, hrep]
    rfl
  have hreach : patch.reach? memory.size 0 = some patch.start := by
    rw [reach?, target?, if_pos rfl, Option.filter_some, if_pos (decide_eq_true hs)]
  have hoperand : patch.operandAt 0 = patch.value := by
    have hstep : patch.repetition.addToValue = 0 := by rw [hrep]
    rw [operandAt, hstep, UInt32.zero_mul, UInt32.add_zero]
  rw [write, if_neg hstay, hcount, walk, hreach]
  dsimp only
  rw [hoperand, applyAt_of_set hop]
  rfl

/-- What a pass over cheats that pin items has done. -/
structure FramePass.Pinned (source : Bytes) (width : Width) (items : List ItemAddress)
    (before after : FramePass) : Prop where
  /-- The bits of the items were copied from the source, and the others left. -/
  memory : Bytes.Copied source before.memory after.memory
    fun position => ∃ address ∈ items, address.Takes width position
  /-- No skip is pending. -/
  skipNext : after.skipNext = false
  /-- Each cheat was evaluated and wrote once; none was skipped or out of range. -/
  tally : after.tally =
    before.tally.add { evaluated := items.length, writes := items.length }

namespace FramePass

/-- A cheat that is switched off leaves memory, the pending skip and the counts. -/
theorem applyCheat_of_disabled (pass : FramePass) {cheat : Cheat} (now : Nat)
    (h : cheat.enabled = false) :
    ∃ events, (pass.applyCheat cheat now).2 = { pass with events := events } := by
  unfold applyCheat
  split
  · exact ⟨_, rfl⟩
  · rw [h, if_neg Bool.false_ne_true]
    exact ⟨_, rfl⟩

/-- Cheats that are switched off leave memory, the pending skip and the counts. -/
theorem applyAll_of_disabled (pass : FramePass) {cheats : List Cheat} (now : Nat)
    (h : ∀ cheat ∈ cheats, cheat.enabled = false) :
    ∃ events, (pass.applyAll now cheats).2 = { pass with events := events } := by
  induction cheats generalizing pass with
  | nil => exact ⟨_, rfl⟩
  | cons cheat rest ih =>
    obtain ⟨first, hfirst⟩ := pass.applyCheat_of_disabled now (h cheat List.mem_cons_self)
    rw [applyAll]
    dsimp only
    rw [hfirst]
    exact ih { pass with events := first } fun other ho => h other (List.mem_cons_of_mem cheat ho)

/-- A pass over two lists is a pass over the first and then over the second. -/
theorem applyAll_append (pass : FramePass) (now : Nat) (first second : List Cheat) :
    (pass.applyAll now (first ++ second)).2 =
      ((pass.applyAll now first).2.applyAll now second).2 := by
  induction first generalizing pass with
  | nil => rfl
  | cons cheat rest ih =>
    rw [List.cons_append, applyAll, applyAll]
    exact ih _

/-- A cheat that pins an item of memory copies its bits and is counted. -/
theorem pinned_applyCheat {pass : FramePass} {source : Bytes} {width : Width} {bigEndian : Bool}
    {address : ItemAddress} {cheat : Cheat} (now : Nat)
    (h : cheat.Pins source width bigEndian address) (hb : address.bit < 8)
    (hskip : pass.skipNext = false) (hs : pass.memory.size = source.size) :
    Pinned source width [address] pass (pass.applyCheat cheat now).2 := by
  obtain ⟨henabled, patch, heffect, hpins⟩ := h
  obtain ⟨hop, hrep, rfl, rfl, rfl, hvalue⟩ := hpins
  have hholds : Bytes.Holds pass.memory.size patch.start patch.width :=
    hs ▸ Bytes.holds_of_readItem hvalue
  obtain ⟨current, hcurrent⟩ := Bytes.exists_readItem patch.bigEndian hholds
  have hcondition : patch.operation.condition? = none := by
    rw [hop]
    rfl
  have hwrites : patch.operation.writes = true := by
    rw [hop]
    rfl
  have happlied : (pass.applyCheat cheat now).2 =
      { memory := pass.memory.putItem patch.start patch.width patch.bigEndian patch.value,
        skipNext := false,
        tally := pass.tally.add { evaluated := 1, writes := 1 },
        events := pass.events ++ (patch.rumbleState.evaluate patch.rumble current now).2 } := by
    rw [applyCheat, heffect]
    dsimp only
    rw [henabled, if_pos rfl, applyPatch, hskip, if_neg Bool.false_ne_true, hcurrent]
    dsimp only
    rw [evaluate]
    dsimp only
    rw [hcondition]
    dsimp only
    rw [hwrites, if_pos rfl, Patch.write_once hop hrep hholds]
    rfl
  rw [happlied]
  refine ⟨?_, rfl, rfl⟩
  refine (Bytes.Copied.refl source pass.memory).trans (Bytes.copied_putItem hb hs hvalue) ?_
  intro position
  rw [false_or]
  constructor
  · rintro ⟨other, hother, ht⟩
    rw [List.mem_singleton.1 hother] at ht
    exact ht
  · intro ht
    exact ⟨patch.start, List.mem_singleton_self _, ht⟩

/-- Two passes that pin items have pinned the items of both. -/
theorem Pinned.trans {source : Bytes} {width : Width} {first second : List ItemAddress}
    {before middle after : FramePass} (hf : Pinned source width first before middle)
    (hs : Pinned source width second middle after) :
    Pinned source width (first ++ second) before after where
  memory := by
    refine hf.memory.trans hs.memory ?_
    intro position
    simp only [List.mem_append, or_and_right, exists_or]
  skipNext := hs.skipNext
  tally := by
    rw [hs.tally, hf.tally, List.length_append]
    simp only [FrameTally.add, Nat.add_assoc]

/-- A pass over cheats that pin items of memory copies the bits of all of them. -/
theorem pinned_applyAll {pass : FramePass} {source : Bytes} {width : Width} {bigEndian : Bool}
    {items : List ItemAddress} {entry : Nat → ItemAddress → Cheat} (now : Nat)
    (h : ∀ i, ∀ address ∈ items, (entry i address).Pins source width bigEndian address)
    (hb : ∀ address ∈ items, address.bit < 8) (hskip : pass.skipNext = false)
    (hs : pass.memory.size = source.size) :
    Pinned source width items pass (pass.applyAll now (items.mapIdx entry)).2 := by
  induction items generalizing pass entry with
  | nil =>
    refine ⟨?_, hskip, rfl⟩
    refine (Bytes.Copied.refl source pass.memory).trans (Bytes.Copied.refl source _) ?_
    intro position
    simp only [List.not_mem_nil, false_and, exists_false, or_self]
  | cons address rest ih =>
    have hfirst := pinned_applyCheat now (h 0 address List.mem_cons_self)
      (hb address List.mem_cons_self) hskip hs
    rw [List.mapIdx_cons, applyAll]
    refine hfirst.trans (ih ?_ ?_ hfirst.skipNext ?_)
    · intro i other ho
      exact h (i + 1) other (List.mem_cons_of_mem address ho)
    · intro other ho
      exact hb other (List.mem_cons_of_mem address ho)
    · exact hfirst.memory.size.trans hs

end FramePass

end GameTrainer
