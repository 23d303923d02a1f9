import GameTrainer.CheatFrame

/-!
# The turns of a pass

A pass gives each enabled patch of a list its turn, in which the patch is either
carried out or skipped. A patch bars the next one when it is a conditional whose item
lies outside memory or has a value that it does not allow. Main statement: a patch is
skipped exactly when the enabled patch before it was carried out and bars it, on the
memory that the patches carried out so far left; a skipped patch changes nothing; and
the tally of a pass accounts for every enabled patch.
-/

namespace GameTrainer

/-- The patch of an entry that is switched on. -/
def Cheat.enabledPatch? (cheat : Cheat) : Option Patch :=
  if cheat.enabled then cheat.patch? else none

/-- The patches of the entries that are switched on, in the order of the list. -/
def enabledPatches (cheats : List Cheat) : List Patch :=
  cheats.filterMap (·.enabledPatch?)

/-- What a conditional asks of the value of its item and its operand. -/
def Operation.Allows : Operation → UInt32 → UInt32 → Prop
  | .runNextIfEq, current, value => current = value
  | .runNextIfNeq, current, value => current ≠ value
  | .runNextIfLt, current, value => current < value
  | .runNextIfGt, current, value => value < current
  | _, _, _ => True

/-- The test of a conditional says what the conditional asks for. -/
theorem Operation.test_eq_false_iff {operation : Operation} {test : UInt32 → UInt32 → Bool}
    (h : operation.condition? = some test) (current value : UInt32) :
    test current value = false ↔ ¬operation.Allows current value := by
  cases operation with
  | runNextIfEq =>
    cases h
    exact beq_eq_false_iff_ne
  | runNextIfNeq =>
    cases h
    exact bne_eq_false_iff_eq.trans Decidable.not_not.symm
  | runNextIfLt =>
    cases h
    exact decide_eq_false_iff_not
  | runNextIfGt =>
    cases h
    exact decide_eq_false_iff_not
  | _ => cases h

/-- A conditional does not write. -/
theorem Operation.writes_of_condition? {operation : Operation} {test : UInt32 → UInt32 → Bool}
    (h : operation.condition? = some test) : operation.writes = false := by
  cases operation with
  | set | increase | decrease => cases h
  | _ => rfl

/-- An item that does not lie in a buffer has no value. -/
theorem Bytes.readItem_eq_none {buffer : Bytes} {address : ItemAddress} {width : Width}
    {bigEndian : Bool} (h : ¬Holds buffer.size address width) :
    buffer.readItem address width bigEndian = none := by
  rw [← Option.not_isSome_iff_eq_none, isSome_readItem]
  exact h

namespace Patch

/-- On this memory the patch makes a pass skip the next enabled patch. -/
def Bars (patch : Patch) (memory : Bytes) : Prop :=
  patch.operation.isConditional = true ∧
    (¬Bytes.Holds memory.size patch.start patch.width ∨
      ∃ current, memory.readItem patch.start patch.width patch.bigEndian = some current ∧
        ¬patch.operation.Allows current patch.value)

/-- Memory after the patch was carried out on it: the patch writes if its operation does
and its item lies in memory. -/
def carriedOut (patch : Patch) (memory : Bytes) : Bytes :=
  match memory.readItem patch.start patch.width patch.bigEndian with
  | some current => if patch.operation.writes then (patch.write memory current).memory else memory
  | none => memory

variable {patch : Patch} {memory : Bytes}

/-- A patch whose item lies outside memory changes nothing, and bars the next one if it is
a conditional. -/
theorem carriedOut_of_not_holds (h : ¬Bytes.Holds memory.size patch.start patch.width) :
    patch.carriedOut memory = memory ∧
      (patch.Bars memory ↔ patch.operation.isConditional = true) := by
  constructor
  · rw [carriedOut, Bytes.readItem_eq_none h]
  · exact ⟨And.left, fun hconditional => ⟨hconditional, Or.inl h⟩⟩

/-- A patch whose item has a value bars the next one if it is a conditional that does not
allow the value. -/
theorem bars_of_readItem {current : UInt32}
    (h : memory.readItem patch.start patch.width patch.bigEndian = some current) :
    patch.Bars memory ↔
      patch.operation.isConditional = true ∧ ¬patch.operation.Allows current patch.value := by
  have hholds := (Bytes.isSome_readItem ..).1 (Option.isSome_of_mem h)
  constructor
  · rintro ⟨hconditional, hout | ⟨found, hfound, hbars⟩⟩
    · exact absurd hholds hout
    · rw [h] at hfound
      cases hfound
      exact ⟨hconditional, hbars⟩
  · rintro ⟨hconditional, hbars⟩
    exact ⟨hconditional, Or.inr ⟨current, h, hbars⟩⟩

/-- Carrying a patch out keeps the size of memory. -/
@[simp] theorem size_carriedOut (patch : Patch) (memory : Bytes) :
    (patch.carriedOut memory).size = memory.size := by
  rw [carriedOut]
  split
  · split
    · exact patch.size_write ..
    · rfl
  · rfl

end Patch

/-- The turn of one enabled patch in a pass. -/
structure Turn where
  /-- The pass as it came to the patch. -/
  before : FramePass
  /-- The patch as the pass found it. -/
  patch : Patch
  /-- The pass as it went on. -/
  after : FramePass
  /-- The patch as the pass left it. -/
  left : Patch

namespace Turn

/-- The pass came to the patch with the order to skip it. -/
def skipped (turn : Turn) : Bool :=
  turn.before.skipNext

/-- The patch is not skipped, but its first item lies outside memory. -/
def missed (size : Nat) (turn : Turn) : Bool :=
  !turn.skipped && !decide (Bytes.Holds size turn.patch.start turn.patch.width)

end Turn

/-- What the patches that are carried out in some turns make of memory. -/
def memoryLeft (memory : Bytes) (turns : List Turn) : Bytes :=
  turns.foldl (fun memory turn => if turn.skipped then memory else turn.patch.carriedOut memory)
    memory

@[simp] theorem memoryLeft_nil (memory : Bytes) : memoryLeft memory [] = memory := rfl

@[simp] theorem memoryLeft_cons (memory : Bytes) (turn : Turn) (turns : List Turn) :
    memoryLeft memory (turn :: turns) =
      memoryLeft (if turn.skipped then memory else turn.patch.carriedOut memory) turns := rfl

namespace FramePass

/-- The turn that a pass gives a patch. -/
def turn (pass : FramePass) (patch : Patch) (now : Nat) : Turn :=
  let applied := pass.applyPatch patch now
  { before := pass, patch := patch, after := applied.2, left := applied.1 }

/-- The turns that a pass gives the enabled patches of a list. -/
def turns (pass : FramePass) (now : Nat) : List Cheat → List Turn
  | [] => []
  | cheat :: rest =>
    let others := (pass.applyCheat cheat now).2.turns now rest
    match cheat.enabledPatch? with
    | some patch => pass.turn patch now :: others
    | none => others

/-! ## One turn -/

/-- A patch that is to be skipped is left as it is, and only counted. -/
theorem applyPatch_of_skipNext {pass : FramePass} (patch : Patch) (now : Nat)
    (h : pass.skipNext = true) :
    pass.applyPatch patch now =
      (patch, { pass with
        skipNext := false,
        tally := { pass.tally with skipped := pass.tally.skipped + 1 } }) := by
  rw [applyPatch, if_pos h]

/-- A patch that is not to be skipped and whose item lies outside memory is left as it is
and counted, and the next one is skipped after a conditional. -/
theorem applyPatch_of_not_holds {pass : FramePass} {patch : Patch} (now : Nat)
    (hskip : pass.skipNext = false)
    (hout : ¬Bytes.Holds pass.memory.size patch.start patch.width) :
    pass.applyPatch patch now =
      (patch, { pass with
        skipNext := patch.operation.isConditional,
        tally := { pass.tally with outOfRange := pass.tally.outOfRange + 1 } }) := by
  rw [applyPatch, hskip, if_neg Bool.false_ne_true, Bytes.readItem_eq_none hout]

/-- A patch that is not to be skipped and whose item has a value is carried out and
counted as evaluated, and the next one is skipped if it bars that. -/
theorem applyPatch_of_readItem {pass : FramePass} {patch : Patch} {current : UInt32} (now : Nat)
    (hskip : pass.skipNext = false)
    (hcurrent : pass.memory.readItem patch.start patch.width patch.bigEndian = some current) :
    let after := (pass.applyPatch patch now).2
    after.memory = patch.carriedOut pass.memory ∧
      (after.skipNext = true ↔ patch.Bars pass.memory) ∧
      after.tally.skipped = pass.tally.skipped ∧
      after.tally.evaluated = pass.tally.evaluated + 1 := by
  have happly : pass.applyPatch patch now = pass.evaluate patch current now := by
    rw [applyPatch, hskip, if_neg Bool.false_ne_true, hcurrent]
  rw [happly, Patch.bars_of_readItem hcurrent, Patch.carriedOut, hcurrent]
  cases htest : patch.operation.condition? with
  | some test =>
    rw [evaluate, Operation.writes_of_condition? htest, Operation.isConditional, htest]
    refine ⟨rfl, ?_, rfl, rfl⟩
    dsimp only
    rw [Bool.not_eq_true', Operation.test_eq_false_iff htest]
    exact (and_iff_right rfl).symm
  | none =>
    rw [evaluate, Operation.isConditional, htest]
    dsimp only
    split
    · exact ⟨rfl, by simp, rfl, rfl⟩
    · exact ⟨rfl, by simp [hskip], rfl, rfl⟩

end FramePass

/-- What a turn does: the pass goes on with the memory of the patch, if that is carried
out; it skips the next patch exactly if this one was carried out and bars it; the turn is
counted as skipped, evaluated or missed; and a skipped patch is left alone. -/
structure Turn.Lawful (turn : Turn) : Prop where
  /-- Memory changes by what is carried out. -/
  memory : turn.after.memory =
    if turn.skipped then turn.before.memory else turn.patch.carriedOut turn.before.memory
  /-- Only a patch that is carried out bars the next one. -/
  bars : turn.after.skipNext = true ↔ turn.skipped = false ∧ turn.patch.Bars turn.before.memory
  /-- A skipped turn is counted. -/
  skips : turn.after.tally.skipped = turn.before.tally.skipped + if turn.skipped then 1 else 0
  /-- Every turn is accounted for. -/
  accounts : turn.after.tally.evaluated + turn.after.tally.skipped +
      (if turn.missed turn.before.memory.size then 1 else 0) =
    turn.before.tally.evaluated + turn.before.tally.skipped + 1
  /-- A skipped patch keeps its rumble and sends nothing. -/
  idle : turn.skipped = true → turn.left = turn.patch ∧ turn.after.events = turn.before.events

namespace FramePass

/-- The turn that a pass gives a patch is lawful. -/
theorem lawful_turn (pass : FramePass) (patch : Patch) (now : Nat) :
    (pass.turn patch now).Lawful := by
  rw [turn]
  cases hskip : pass.skipNext with
  | true =>
    rw [applyPatch_of_skipNext patch now hskip]
    exact
      { memory := (if_pos hskip).symm
        bars := by simp [Turn.skipped, hskip]
        skips := by simp [Turn.skipped, hskip]
        accounts := by simp [Turn.skipped, Turn.missed, hskip, Nat.add_assoc]
        idle := fun _ => ⟨rfl, rfl⟩ }
  | false =>
    by_cases hholds : Bytes.Holds pass.memory.size patch.start patch.width
    · obtain ⟨current, hcurrent⟩ := Option.isSome_iff_exists.1
        ((Bytes.isSome_readItem _ _ _ patch.bigEndian).2 hholds)
      obtain ⟨hmemory, hbars, hskips, hevaluates⟩ := applyPatch_of_readItem now hskip hcurrent
      exact
        { memory := by simp [Turn.skipped, hskip, hmemory]
          bars := by simp [Turn.skipped, hskip, hbars]
          skips := by simp [Turn.skipped, hskip, hskips]
          accounts := by
            simp [Turn.skipped, Turn.missed, hskip, hholds, hskips, hevaluates, Nat.add_right_comm]
          idle := fun h => absurd (hskip.symm.trans h) Bool.false_ne_true }
    · obtain ⟨hmemory, hbars⟩ := Patch.carriedOut_of_not_holds hholds
      rw [applyPatch_of_not_holds now hskip hholds]
      exact
        { memory := by simp [Turn.skipped, hskip, hmemory]
          bars := by simp [Turn.skipped, hskip, hbars]
          skips := by simp [Turn.skipped, hskip]
          accounts := by simp [Turn.skipped, Turn.missed, hskip, hholds]
          idle := fun h => absurd (hskip.symm.trans h) Bool.false_ne_true }

end FramePass

/-- Turns that lead from one pass to another: each is lawful and begins where the one
before ended, apart from events that were sent in between. -/
inductive Trail : FramePass → List Turn → FramePass → Prop where
  /-- Without a turn the pass is the same. -/
  | nil (pass : FramePass) : Trail pass [] pass
  /-- Between two turns an entry that is switched off may send events. -/
  | between {pass last : FramePass} {turns : List Turn} (events : List RumbleEvent)
      (later : Trail { pass with events := events } turns last) : Trail pass turns last
  /-- A turn, and the turns from where it ended. -/
  | cons {turn : Turn} {turns : List Turn} {last : FramePass} (law : turn.Lawful)
      (later : Trail turn.after turns last) : Trail turn.before (turn :: turns) last

namespace Trail

variable {first last : FramePass} {turns : List Turn}

/-- Memory is what the patches that were carried out left. -/
theorem memory (h : Trail first turns last) : last.memory = memoryLeft first.memory turns := by
  induction h with
  | nil pass => rfl
  | between events later ih => exact ih
  | cons law later ih => rw [ih, law.memory, memoryLeft_cons]

/-- The skipped turns are counted. -/
theorem skips (h : Trail first turns last) :
    last.tally.skipped = first.tally.skipped + turns.countP Turn.skipped := by
  induction h with
  | nil pass => rfl
  | between events later ih => exact ih
  | cons law later ih =>
    rw [ih, law.skips, List.countP_cons]
    omega

/-- Every turn is counted as evaluated, as skipped, or as one whose item was missed. -/
theorem accounts (h : Trail first turns last) :
    last.tally.evaluated + last.tally.skipped + turns.countP (Turn.missed first.memory.size) =
      first.tally.evaluated + first.tally.skipped + turns.length := by
  induction h with
  | nil pass => rfl
  | between events later ih => exact ih
  | @cons turn turns last law later ih =>
    have hsize : turn.after.memory.size = turn.before.memory.size := by
      rw [law.memory]
      split
      · rfl
      · exact turn.patch.size_carriedOut _
    have haccounts := law.accounts
    rw [hsize] at ih
    rw [List.countP_cons, List.length_cons]
    omega

/-- The first turn is skipped if the pass came with the order to skip. -/
theorem skipped_first (h : Trail first turns last) {turn : Turn} (hturn : turns[0]? = some turn) :
    turn.skipped = first.skipNext := by
  induction h with
  | nil pass => cases hturn
  | between events later ih => exact ih hturn
  | cons law later ih =>
    cases hturn
    rfl

/-- Any other turn is skipped exactly if the patch before it was carried out and bars it
on the memory that it found. -/
theorem skipped_next (h : Trail first turns last) {j : Nat} {earlier turn : Turn}
    (hearlier : turns[j]? = some earlier) (hturn : turns[j + 1]? = some turn) :
    turn.skipped = true ↔
      earlier.skipped = false ∧
        earlier.patch.Bars (memoryLeft first.memory (turns.take j)) := by
  induction h generalizing j with
  | nil pass => cases hearlier
  | between events later ih => exact ih hearlier hturn
  | cons law later ih =>
    rw [List.getElem?_cons_succ] at hturn
    cases j with
    | zero =>
      cases hearlier
      rw [later.skipped_first hturn, List.take_zero, memoryLeft_nil]
      exact law.bars
    | succ j =>
      rw [List.getElem?_cons_succ] at hearlier
      rw [ih hearlier hturn, law.memory, List.take_succ_cons, memoryLeft_cons]

/-- A skipped turn changes neither memory nor its patch, and sends no event. -/
theorem idle (h : Trail first turns last) {turn : Turn} (hmem : turn ∈ turns)
    (hskipped : turn.skipped = true) :
    turn.after.memory = turn.before.memory ∧ turn.left = turn.patch ∧
      turn.after.events = turn.before.events := by
  induction h with
  | nil pass => cases hmem
  | between events later ih => exact ih hmem
  | cons law later ih =>
    rcases List.mem_cons.1 hmem with rfl | hlater
    · exact ⟨law.memory.trans (if_pos hskipped), law.idle hskipped⟩
    · exact ih hlater

end Trail

namespace FramePass

/-! ## All turns -/

/-- An entry that holds no enabled patch stays such an entry, and the pass only may send
events. -/
theorem applyCheat_of_enabledPatch?_eq_none (pass : FramePass) {cheat : Cheat} (now : Nat)
    (h : cheat.enabledPatch? = none) :
    (pass.applyCheat cheat now).1.enabledPatch? = none ∧
      ∃ events, (pass.applyCheat cheat now).2 = { pass with events := events } := by
  obtain ⟨index, description, enabled, effect⟩ := cheat
  cases effect with
  | code text => exact ⟨h, pass.events, rfl⟩
  | patch patch =>
    cases enabled with
    | true => cases h
    | false => exact ⟨rfl, _, rfl⟩

/-- An entry that holds an enabled patch holds what the pass makes of the patch. -/
theorem applyCheat_of_enabledPatch?_eq_some (pass : FramePass) {cheat : Cheat} {patch : Patch}
    (now : Nat) (h : cheat.enabledPatch? = some patch) :
    (pass.applyCheat cheat now).1.enabledPatch? = some (pass.applyPatch patch now).1 ∧
      (pass.applyCheat cheat now).2 = (pass.applyPatch patch now).2 := by
  obtain ⟨index, description, enabled, effect⟩ := cheat
  cases effect with
  | code text => cases enabled <;> cases h
  | patch patch =>
    cases enabled with
    | true =>
      cases h
      exact ⟨rfl, rfl⟩
    | false => cases h

/-- The turns of a pass lead from its beginning to its end. -/
theorem trail_turns (pass : FramePass) (now : Nat) (cheats : List Cheat) :
    Trail pass (pass.turns now cheats) (pass.applyAll now cheats).2 := by
  induction cheats generalizing pass with
  | nil => exact .nil pass
  | cons cheat rest ih =>
    have hlater := ih (pass.applyCheat cheat now).2
    rw [turns, applyAll]
    cases h : cheat.enabledPatch? with
    | none =>
      obtain ⟨events, hevents⟩ := (pass.applyCheat_of_enabledPatch?_eq_none now h).2
      rw [hevents] at hlater ⊢
      exact .between events hlater
    | some patch =>
      rw [(pass.applyCheat_of_enabledPatch?_eq_some now h).2] at hlater ⊢
      exact .cons (pass.lawful_turn patch now) hlater

/-- The turns are those of the enabled patches, in the order of the list. -/
theorem map_patch_turns (pass : FramePass) (now : Nat) (cheats : List Cheat) :
    (pass.turns now cheats).map Turn.patch = enabledPatches cheats := by
  induction cheats generalizing pass with
  | nil => rfl
  | cons cheat rest ih =>
    rw [turns, enabledPatches, List.filterMap_cons]
    cases h : cheat.enabledPatch? with
    | none => exact ih _
    | some patch =>
      rw [List.map_cons, ih]
      rfl

/-- The turns leave the enabled patches that the list has after the pass. -/
theorem map_left_turns (pass : FramePass) (now : Nat) (cheats : List Cheat) :
    (pass.turns now cheats).map Turn.left = enabledPatches (pass.applyAll now cheats).1 := by
  induction cheats generalizing pass with
  | nil => rfl
  | cons cheat rest ih =>
    rw [turns, applyAll, enabledPatches, List.filterMap_cons]
    cases h : cheat.enabledPatch? with
    | none =>
      rw [(pass.applyCheat_of_enabledPatch?_eq_none now h).1]
      exact ih _
    | some patch =>
      rw [(pass.applyCheat_of_enabledPatch?_eq_some now h).1, List.map_cons, ih]
      rfl

end FramePass

/-- In a pass over a list, the enabled patches have one turn each, in order. A turn is
skipped exactly if it is not the first, and the patch before it was carried out and bars
it on the memory that the patches carried out before that one left. A skipped turn changes
nothing, no order to skip reaches the next pass, and the tally counts every turn as
evaluated, as skipped, or as carried out on an item outside memory. -/
theorem skipped_iff_barred (cheats : List Cheat) (memory : Bytes) (now : Nat) :
    let ran := applyFrame cheats memory now
    let turns := FramePass.turns { memory := memory } now cheats
    turns.map Turn.patch = enabledPatches cheats ∧
      turns.map Turn.left = enabledPatches ran.1 ∧
      (∀ k turn, turns[k]? = some turn →
        (turn.skipped = true ↔
          ∃ j earlier, k = j + 1 ∧ turns[j]? = some earlier ∧ earlier.skipped = false ∧
            earlier.patch.Bars (memoryLeft memory (turns.take j)))) ∧
      (∀ turn ∈ turns, turn.skipped = true →
        turn.after.memory = turn.before.memory ∧ turn.left = turn.patch ∧
          turn.after.events = turn.before.events) ∧
      ran.2.memory = memoryLeft memory turns ∧
      (∀ next later turn, (FramePass.turns { memory := next } later ran.1)[0]? = some turn →
        turn.skipped = false) ∧
      ran.2.tally.skipped = turns.countP Turn.skipped ∧
      ran.2.tally.evaluated + ran.2.tally.skipped + turns.countP (Turn.missed memory.size) =
        (enabledPatches cheats).length := by
  intro ran turns
  have htrail : Trail { memory := memory } turns ran.2 :=
    FramePass.trail_turns { memory := memory } now cheats
  have hpatches : turns.map Turn.patch = enabledPatches cheats :=
    FramePass.map_patch_turns { memory := memory } now cheats
  refine ⟨hpatches, FramePass.map_left_turns { memory := memory } now cheats, ?_,
    fun _ hmem => htrail.idle hmem, htrail.memory, ?_, ?_, ?_⟩
  · intro k turn hturn
    cases k with
    | zero =>
      rw [htrail.skipped_first hturn]
      simp
    | succ j =>
      have hj : j < turns.length := Nat.lt_of_succ_lt (List.getElem?_eq_some_iff.1 hturn).1
      have hearlier : turns[j]? = some turns[j] := List.getElem?_eq_getElem hj
      rw [htrail.skipped_next hearlier hturn]
      constructor
      · exact fun hbarred => ⟨j, turns[j], rfl, hearlier, hbarred⟩
      · rintro ⟨i, earlier, hi, hfound, hbarred⟩
        cases hi
        rw [hearlier] at hfound
        cases hfound
        exact hbarred
  · intro next later turn hturn
    exact (FramePass.trail_turns { memory := next } later ran.1).skipped_first hturn
  · rw [htrail.skips, Nat.zero_add]
  · rw [htrail.accounts, ← hpatches, List.length_map, Nat.zero_add, Nat.zero_add]

/-- A conditional that is skipped bars nothing, even if it would. -/
example :
    let gate (value : UInt32) : Cheat :=
      { enabled := true, effect := .patch { operation := .runNextIfNeq, value := value } }
    ((FramePass.turns { memory := #[7] } 0 [gate 7, gate 7, gate 8]).map Turn.skipped) =
      [false, true, false] := by
  decide

end GameTrainer
