import GameTrainer.CommandApply
import GameTrainer.Proofs.SilentPass

/-!
# Passes one after the other

A list is passed over again and again, each pass at its time and on what the one before left of
memory and of the rumbles. Main statements: memory and the tally after every pass come out the
same at other times and for a list with other rumbles; so the passes can be broken off and taken
up again by the list with all rumbles at rest.
-/

namespace GameTrainer

/-- Memory and the tally after each pass over a list, from a memory on, at times in order. -/
def passesOver (cheats : List Cheat) (memory : Bytes) : List Nat → List (Bytes × FrameTally)
  | [] => []
  | now :: later =>
    let applied := applyFrame cheats memory now
    (applied.2.memory, applied.2.tally) :: passesOver applied.1 applied.2.memory later

/-- Memory after passes that began on a memory. -/
def memoryAfter (memory : Bytes) (passes : List (Bytes × FrameTally)) : Bytes :=
  passes.foldl (fun _ pass => pass.1) memory

/-- What was counted in passes together. -/
def tallyOf (passes : List (Bytes × FrameTally)) : FrameTally :=
  passes.foldr (fun pass total => pass.2.add total) {}

theorem memoryAfter_append (memory : Bytes) (passes more : List (Bytes × FrameTally)) :
    memoryAfter memory (passes ++ more) = memoryAfter (memoryAfter memory passes) more :=
  List.foldl_append

theorem tallyOf_append (passes more : List (Bytes × FrameTally)) :
    tallyOf (passes ++ more) = (tallyOf passes).add (tallyOf more) := by
  induction passes with
  | nil => exact (FrameTally.zero_add _).symm
  | cons pass rest ih =>
    rw [List.cons_append, tallyOf, List.foldr_cons, ← tallyOf, ih, ← FrameTally.add_assoc]
    rfl

/-! ## What passes look at -/

/-- A pass leaves all of a list but its rumbles. -/
theorem map_bare_applyFrame (cheats : List Cheat) (memory : Bytes) (now : Nat) :
    (applyFrame cheats memory now).1.map Cheat.bare = cheats.map Cheat.bare :=
  FramePass.map_applyAll now (fun pass cheat => pass.bare_applyCheat cheat now) _ cheats

/-- One pass does the same to memory and counts the same over a list with other rumbles, and at
another time. -/
theorem applyFrame_congr {cheats others : List Cheat}
    (h : cheats.map Cheat.bare = others.map Cheat.bare) (memory : Bytes) (now later : Nat) :
    (applyFrame cheats memory now).2.memory = (applyFrame others memory later).2.memory ∧
      (applyFrame cheats memory now).2.tally = (applyFrame others memory later).2.tally := by
  have hstart : FramePass.silent { memory := memory } = FramePass.silent { memory := memory } := rfl
  have hsilent := FramePass.silent_applyAll_congr hstart h now later
  have hmemory := congrArg FramePass.memory hsilent
  have htally := congrArg FramePass.tally hsilent
  exact ⟨hmemory, htally⟩

/-- As many passes do the same to memory and count the same, one by one, over a list with other
rumbles, and at other times. -/
theorem passesOver_congr {cheats others : List Cheat} {times later : List Nat}
    (h : cheats.map Cheat.bare = others.map Cheat.bare) (hlength : times.length = later.length)
    (memory : Bytes) : passesOver cheats memory times = passesOver others memory later := by
  induction times generalizing cheats others later memory with
  | nil =>
    have hnil : later = [] := List.length_eq_zero_iff.1 hlength.symm
    rw [hnil]
    rfl
  | cons now rest ih =>
    cases later with
    | nil => cases hlength
    | cons other more =>
      obtain ⟨hmemory, htally⟩ := applyFrame_congr h memory now other
      have hleft : (applyFrame cheats memory now).1.map Cheat.bare =
          (applyFrame others memory other).1.map Cheat.bare := by
        rw [map_bare_applyFrame, map_bare_applyFrame, h]
      rw [passesOver, passesOver, hmemory, htally, ih hleft (Nat.succ.inj hlength)]

/-- Passes can be broken off and taken up again by the list as it was at first. -/
theorem passesOver_append (cheats : List Cheat) (memory : Bytes) (times later : List Nat) :
    passesOver cheats memory (times ++ later) =
      passesOver cheats memory times ++
        passesOver cheats (memoryAfter memory (passesOver cheats memory times)) later := by
  -- From any list with the same entries but for rumbles, as each pass changes them.
  suffices hfrom : ∀ others : List Cheat, others.map Cheat.bare = cheats.map Cheat.bare →
      passesOver others memory (times ++ later) =
        passesOver others memory times ++
          passesOver cheats (memoryAfter memory (passesOver others memory times)) later from
    hfrom cheats rfl
  induction times generalizing memory with
  | nil => exact fun others h => passesOver_congr h rfl memory
  | cons now rest ih =>
    intro others h
    have hleft : (applyFrame others memory now).1.map Cheat.bare = cheats.map Cheat.bare := by
      rw [map_bare_applyFrame, h]
    rw [List.cons_append, passesOver, passesOver, List.cons_append, ih _ _ hleft]
    rfl

namespace ApplyCommand

/-- A frame passes over the entries once, on the region of the settings, and keeps the settings. -/
theorem runFrame_eq {trainer : Trainer} {memory : CoreMemory} {content : Bytes} (now : Nat)
    (h : memory.get? trainer.settings.region = some content) :
    let applied := applyFrame trainer.cheats.entries content now
    trainer.runFrame memory now =
      ⟨applied.2.tally,
        { trainer with cheats := { trainer.cheats with entries := applied.1 } },
        memory.set trainer.settings.region applied.2.memory, applied.2.events⟩ := by
  rw [Trainer.runFrame, h]

/-- The frames of the apply command are passes over the entries, each at the time of its frame. -/
theorem runFrames_eq (times : List Nat) {trainer : Trainer} {memory : CoreMemory}
    {content : Bytes} (total : FrameTally)
    (h : memory.get? trainer.settings.region = some content) :
    let passes := passesOver trainer.cheats.entries content times
    let run := runFrames times trainer memory total
    run.2.1.get? trainer.settings.region = some (memoryAfter content passes) ∧
      run.2.2 = total.add (tallyOf passes) := by
  induction times generalizing trainer memory content total with
  | nil => exact ⟨h, (FrameTally.add_zero total).symm⟩
  | cons now later ih =>
    let applied := applyFrame trainer.cheats.entries content now
    let passed : Trainer :=
      { trainer with cheats := { trainer.cheats with entries := applied.1 } }
    have hregion : (memory.set trainer.settings.region applied.2.memory).get?
        passed.settings.region = some applied.2.memory :=
      CoreMemory.get?_set_self ..
    obtain ⟨hmemory, htotal⟩ := ih (total.add applied.2.tally) hregion
    rw [passesOver, runFrames, runFrame_eq now h]
    exact ⟨hmemory, htotal.trans (FrameTally.add_assoc ..)⟩

end ApplyCommand

end GameTrainer
