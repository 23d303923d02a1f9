import GameTrainer.Proofs.EntryPlaces

/-!
# The two sides of a pass

A pass changes memory, decides what to skip and counts; and it shows each patch the value of
its item, from which the rumble of the patch learns and sends events. The first side never
looks at the second. Main statements: memory, the pending skip and the tally come out the same
when everything about rumble is left out of the list; and what an entry becomes and sends
depends on the pass only through that first side.
-/

namespace GameTrainer

/-! ## Without rumble -/

/-- A patch without its rumble. -/
def Patch.bare (patch : Patch) : Patch :=
  { patch with rumble := {}, rumbleState := {} }

/-- What an entry has to do with memory: its switch, and its effect without a rumble. -/
def Cheat.bare (cheat : Cheat) : Cheat where
  enabled := cheat.enabled
  effect :=
    match cheat.effect with
    | .code text => .code text
    | .patch patch => .patch patch.bare

namespace FramePass

/-- A pass as if it had sent no event. -/
def silent (pass : FramePass) : FramePass :=
  { pass with events := [] }

end FramePass

namespace Patch

/-- The writes of a patch do not look at its rumble. -/
theorem walk_bare (patch : Patch) (left i : Nat) (memory : Bytes) :
    patch.bare.walk left i memory = patch.walk left i memory := by
  induction left generalizing i memory with
  | zero => rfl
  | succ left ih =>
    have hreach : patch.bare.reach? memory.size i = patch.reach? memory.size i := rfl
    rw [walk, walk, hreach]
    cases patch.reach? memory.size i with
    | some address => exact ih (i + 1) _
    | none => rfl

theorem write_bare (patch : Patch) (memory : Bytes) (current : UInt32) :
    patch.bare.write memory current = patch.write memory current := by
  have hwalk := patch.walk_bare patch.writeCount 0 memory
  rw [write, write]
  exact congrArg (ite _ _) hwalk

end Patch

namespace FramePass

/-- Evaluating a patch changes memory, the pending skip and the tally without its rumble. -/
theorem silent_evaluate (pass : FramePass) (patch : Patch) (current : UInt32) (now : Nat) :
    (pass.evaluate patch current now).2.silent =
      (pass.silent.evaluate patch.bare current 0).2.silent := by
  have hwrite : patch.bare.write pass.silent.memory current = patch.write pass.memory current :=
    patch.write_bare pass.memory current
  have hcondition : patch.bare.operation.condition? = patch.operation.condition? := rfl
  have hwrites : patch.bare.operation.writes = patch.operation.writes := rfl
  rw [evaluate, evaluate, hcondition, hwrites, hwrite]
  cases patch.operation.condition? with
  | some test => rfl
  | none => cases patch.operation.writes <;> rfl

theorem silent_applyPatch (pass : FramePass) (patch : Patch) (now : Nat) :
    (pass.applyPatch patch now).2.silent = (pass.silent.applyPatch patch.bare 0).2.silent := by
  have hskip : pass.silent.skipNext = pass.skipNext := rfl
  have hread : pass.silent.memory.readItem patch.bare.start patch.bare.width patch.bare.bigEndian =
      pass.memory.readItem patch.start patch.width patch.bigEndian := rfl
  rw [applyPatch, applyPatch, hskip, hread]
  cases pass.skipNext with
  | true => rfl
  | false =>
    cases pass.memory.readItem patch.start patch.width patch.bigEndian with
    | some current => exact pass.silent_evaluate patch current now
    | none => rfl

theorem silent_applyCheat (pass : FramePass) (cheat : Cheat) (now : Nat) :
    (pass.applyCheat cheat now).2.silent = (pass.silent.applyCheat cheat.bare 0).2.silent := by
  obtain ⟨index, description, enabled, effect⟩ := cheat
  cases effect with
  | code text => rfl
  | patch patch =>
    cases enabled with
    | true => exact pass.silent_applyPatch patch now
    | false => rfl

/-- Passes that differ in their events at most, over entries that differ in their rumbles at
most, do the same to memory, skip the same and count the same. -/
theorem silent_applyCheat_congr {first second : FramePass} {cheat other : Cheat}
    (hpass : first.silent = second.silent) (hcheat : cheat.bare = other.bare) (now later : Nat) :
    (first.applyCheat cheat now).2.silent = (second.applyCheat other later).2.silent := by
  rw [silent_applyCheat first, silent_applyCheat second, hpass, hcheat]

theorem silent_applyAll_congr {first second : FramePass} {cheats others : List Cheat}
    (hpass : first.silent = second.silent)
    (hcheats : cheats.map Cheat.bare = others.map Cheat.bare) (now later : Nat) :
    (first.applyAll now cheats).2.silent = (second.applyAll later others).2.silent := by
  induction cheats generalizing first second others with
  | nil =>
    have hnil : others = [] := List.map_eq_nil_iff.1 hcheats.symm
    rw [hnil]
    exact hpass
  | cons cheat rest ih =>
    cases others with
    | nil => cases hcheats
    | cons other more =>
      obtain ⟨hfirst, hrest⟩ := List.cons_eq_cons.1 hcheats
      have hnext := silent_applyCheat_congr hpass hfirst now later
      have hlater := ih hnext hrest
      exact hlater

/-! ## The rumble -/

/-- The value of its item that a patch is shown when its turn comes: none when it is skipped or
its item lies outside memory. -/
def shown? (pass : FramePass) (patch : Patch) : Option UInt32 :=
  if pass.skipNext then none
  else pass.memory.readItem patch.start patch.width patch.bigEndian

end FramePass

/-- What a patch becomes and sends when it is shown a value, or none. -/
def Patch.rumbled (patch : Patch) (now : Nat) : Option UInt32 → Patch × List RumbleEvent
  | none => (patch, [])
  | some current =>
    let rumbled := patch.rumbleState.evaluate patch.rumble current now
    ({ patch with rumbleState := rumbled.1 }, rumbled.2)

namespace FramePass

/-- An enabled patch only takes from a pass the value that it is shown. -/
theorem applyPatch_rumbled (pass : FramePass) (patch : Patch) (now : Nat) :
    (pass.applyPatch patch now).1 = (patch.rumbled now (pass.shown? patch)).1 ∧
      (pass.applyPatch patch now).2.events =
        pass.events ++ (patch.rumbled now (pass.shown? patch)).2 := by
  rw [applyPatch, shown?]
  cases pass.skipNext with
  | true => exact ⟨rfl, (List.append_nil _).symm⟩
  | false =>
    cases pass.memory.readItem patch.start patch.width patch.bigEndian with
    | none => exact ⟨rfl, (List.append_nil _).symm⟩
    | some current =>
      rw [if_neg Bool.false_ne_true, if_neg Bool.false_ne_true]
      dsimp only
      rw [evaluate]
      cases patch.operation.condition? with
      | some test => exact ⟨rfl, rfl⟩
      | none => cases patch.operation.writes <;> exact ⟨rfl, rfl⟩

/-- The events that a pass sends for an entry. -/
def sentFor (pass : FramePass) (cheat : Cheat) (now : Nat) : List RumbleEvent :=
  (pass.silent.applyCheat cheat now).2.events

/-- What an entry becomes is what a silent pass makes of it, and its events come behind those
sent before. -/
theorem applyCheat_sentFor (pass : FramePass) (cheat : Cheat) (now : Nat) :
    (pass.applyCheat cheat now).1 = (pass.silent.applyCheat cheat now).1 ∧
      (pass.applyCheat cheat now).2.events = pass.events ++ pass.sentFor cheat now := by
  rw [sentFor]
  obtain ⟨index, description, enabled, effect⟩ := cheat
  cases effect with
  | code text => exact ⟨rfl, (List.append_nil _).symm⟩
  | patch patch =>
    cases enabled with
    | true =>
      have hloud := pass.applyPatch_rumbled patch now
      have hsilent := pass.silent.applyPatch_rumbled patch now
      have hshown : pass.silent.shown? patch = pass.shown? patch := rfl
      rw [hshown] at hsilent
      have hleft : (pass.applyPatch patch now).1 = (pass.silent.applyPatch patch now).1 :=
        hloud.1.trans hsilent.1.symm
      constructor
      · exact congrArg (fun left => Cheat.mk index description true (.patch left)) hleft
      · exact hloud.2.trans (congrArg _ hsilent.2.symm)
    | false => exact ⟨rfl, rfl⟩

/-- A pass leaves all of an entry but its rumble. -/
theorem bare_applyCheat (pass : FramePass) (cheat : Cheat) (now : Nat) :
    (pass.applyCheat cheat now).1.bare = cheat.bare := by
  obtain ⟨index, description, enabled, effect⟩ := cheat
  cases effect with
  | code text => rfl
  | patch patch =>
    cases enabled with
    | true =>
      have hleft := (pass.applyPatch_rumbled patch now).1
      have hbare : (pass.applyPatch patch now).1.bare = patch.bare := by
        rw [hleft]
        cases pass.shown? patch <;> rfl
      exact congrArg (fun left => Cheat.mk 0 none true (.patch left)) hbare
    | false => rfl

end FramePass

end GameTrainer
