import GameTrainer.Proofs.CommandSteps
import GameTrainer.Proofs.KeptFiles
import GameTrainer.Proofs.RepeatedPasses

/-!
# Dumps that cheats are applied to

A cheat file is applied to a dump for some frames, and what becomes of the dump is written to a
file, over the dump itself or elsewhere. Main statement: memory and tallies never depend on
rumbles or times; so a dump to which a cheat file was applied for some frames and then for some
more holds the same as one to which it was applied for all of them, and the tallies add up.
-/

namespace GameTrainer

/-- A list that was loaded is loaded again after another file was written. -/
theorem CheatList.load_of_write {list loaded : CheatList} {files written : FileTree}
    {path target : String} {content : Bytes} {append : Bool} {count : Nat}
    (hload : ((list.load path append : StateM FileTree _) files).1 = (.ok count, loaded))
    (hwrite : files.write target content = .ok written)
    (hne : files.locate target ≠ files.locate path) :
    ((list.load path append : StateM FileTree _) written).1 = (.ok count, loaded) := by
  rw [load_eq] at hload ⊢
  cases hread : files.read path with
  | ok stored =>
    rw [FileTree.read_write_of_ne hwrite hread hne, ← hread]
    exact hload
  | error fault =>
    rw [hread] at hload
    cases hload

namespace ApplyCommand

/-- What is printed when a cheat file has been applied. -/
def report (frames : Nat) (total : FrameTally) (target : String) : String :=
  summary frames total ++ "\n" ++ ("Wrote " ++ target ++ "\n")

/-- What applying a cheat file to a dump comes to, in frames at some times: what was counted and the
files then, or the complaint. -/
def applied (files : FileTree) (file ram : String) (times : List Nat) (target : String) :
    Except Complaint (FrameTally × FileTree) := do
  let dump ← (files.read ram).mapError fun fault => ⟨"reading dump " ++ ram, some fault.message⟩
  let loaded := ((({} : CheatList).load file false : StateM FileTree _) files).1
  let _ ← loaded.1.mapError Complaint.ofFailure
  let passes := passesOver loaded.2.entries dump times
  let written ← (files.write target (memoryAfter dump passes)).mapError fun fault =>
    ⟨"writing dump " ++ target, some fault.message⟩
  return (tallyOf passes, written)

/-- When the passes are done, the dump is written and reported on. -/
theorem on_finish (printed : Printed) (files : FileTree) (frames : Nat) (total : FrameTally)
    (target : String) (dump : Bytes) :
    CommandM.on printed files (do
        CommandM.writeDump target dump
        CommandM.tell (summary frames total)
        CommandM.tell ("Wrote " ++ target)) =
      match files.write target dump with
      | .ok written =>
        ((.ok (), { printed with
          progress := printed.progress ++ report frames total target }), written)
      | .error fault =>
        ((.error ⟨"writing dump " ++ target, some fault.message⟩, printed), files) := by
  rw [CommandM.on_bind, CommandM.on_writeDump]
  cases files.write target dump with
  | error fault => rfl
  | ok written =>
    dsimp only
    rw [CommandM.on_bind, CommandM.on_tell]
    dsimp only
    rw [CommandM.on_tell]
    simp only [report, String.append_assoc]

/-- The apply command reports what it comes to; where it complains, it leaves all files. -/
theorem on_run (printed : Printed) (files : FileTree) (settings : Settings) (file ram : String)
    (times : List Nat) (output : Option String) :
    CommandM.on printed files (run settings file ram times output) =
      match applied files file ram times (output.getD ram) with
      | .ok (total, written) =>
        ((.ok (), { printed with
          progress := printed.progress ++ report times.length total (output.getD ram) }), written)
      | .error complaint => ((.error complaint, printed), files) := by
  rw [run, CommandM.on_bind, CommandM.on_readDump, applied]
  cases files.read ram with
  | error fault => rfl
  | ok dump =>
    dsimp only [mapError_ok]
    rw [CommandM.on_bind, CommandM.on_onFiles, Trainer.load_apply, ok_bind]
    dsimp only
    rw [CommandM.on_bind, CommandM.on_check, Trainer.result_report, Trainer.trainer_report]
    obtain ⟨failure | count, list⟩ :=
      ((({} : CheatList).load file false : StateM FileTree (Outcome CheatList Nat)) files).1
    · rfl
    · have hregion : (CoreMemory.single settings.region dump).get?
          ({ settings := settings, cheats := list } : Trainer).settings.region = some dump :=
        CoreMemory.get?_single ..
      obtain ⟨hmemory, htotal⟩ := runFrames_eq times {} hregion
      dsimp only [mapError_ok] at hmemory ⊢
      rw [hmemory, htotal, Option.getD_some, FrameTally.zero_add, on_finish, ok_bind]
      dsimp only [bind, Except.bind]
      cases files.write (output.getD ram) _ <;> rfl

/-- Applying goes through when the dump can be read, the cheats can be loaded, and what the passes
over them leave can be written. -/
theorem applied_eq_ok_iff {files written : FileTree} {file ram target : String} {times : List Nat}
    {total : FrameTally} :
    applied files file ram times target = .ok (total, written) ↔
      ∃ dump count list, files.read ram = .ok dump ∧
        ((({} : CheatList).load file false : StateM FileTree _) files).1 = (.ok count, list) ∧
        files.write target (memoryAfter dump (passesOver list.entries dump times)) =
          .ok written ∧
        tallyOf (passesOver list.entries dump times) = total := by
  constructor
  · intro h
    obtain ⟨dump, hread, hafter⟩ := exists_of_bind_eq_ok h
    obtain ⟨count, hload, hpasses⟩ := exists_of_bind_eq_ok hafter
    obtain ⟨left, hwrite, hgiven⟩ := exists_of_bind_eq_ok hpasses
    rw [mapError_eq_ok_iff] at hread hload hwrite
    cases hgiven
    exact ⟨dump, count, _, hread, Prod.ext hload rfl, hwrite, rfl⟩
  · rintro ⟨dump, count, list, hread, hload, hwrite, rfl⟩
    rw [applied, hread, hload]
    dsimp only [mapError_ok, bind, Except.bind]
    rw [hwrite]
    rfl

/-- What applying comes to does not depend on the times of the frames, only on how many they are. -/
theorem applied_congr {times later : List Nat} (hlength : times.length = later.length)
    (files : FileTree) (file ram target : String) :
    applied files file ram times target = applied files file ram later target := by
  have hpasses : ∀ (cheats : List Cheat) (memory : Bytes),
      passesOver cheats memory times = passesOver cheats memory later :=
    fun cheats memory => passesOver_congr rfl hlength memory
  rw [applied, applied]
  simp only [hpasses]

end ApplyCommand

/-- The apply command with what it is given. -/
structure Application where
  /-- The settings. -/
  settings : Settings := {}
  /-- The cheat file. -/
  file : String
  /-- The file of the dump. -/
  ram : String
  /-- The time of each frame, in order. -/
  times : List Nat
  /-- The file for what becomes of the dump, if not the dump's own. -/
  output : Option String := none

namespace Application

/-- The file that the command writes to. -/
def target (application : Application) : String := application.output.getD application.ram

/-- What the command leaves when it is carried out: that it went through or its complaint, what it
printed, and the files. -/
def run (application : Application) (files : FileTree) :
    (Except Complaint Unit × Printed) × FileTree :=
  CommandM.on {} files (ApplyCommand.run application.settings application.file application.ram
    application.times application.output)

/-- A command that went through reported what applying counted. -/
theorem exists_of_run {application : Application} {files : FileTree}
    (h : (application.run files).1.1 = .ok ()) :
    ∃ total,
      ApplyCommand.applied files application.file application.ram application.times
          application.target = .ok (total, (application.run files).2) ∧
      (application.run files).1.2 =
        { progress := ApplyCommand.report application.times.length total application.target } := by
  rw [run, ApplyCommand.on_run, ← target] at h ⊢
  cases happlied : ApplyCommand.applied files application.file application.ram application.times
      application.target with
  | ok done =>
    refine ⟨done.1, rfl, ?_⟩
    dsimp only
    rw [String.empty_append]
  | error complaint =>
    rw [happlied] at h
    cases h

/-- Two commands that do in two parts what one does at once: the second goes on, for the other
frames, with what the first made of the dump. -/
structure Splits (whole first second : Application) : Prop where
  /-- The first applies the same cheat file. -/
  first_file : first.file = whole.file
  /-- So does the second. -/
  second_file : second.file = whole.file
  /-- The first begins with the same dump. -/
  first_ram : first.ram = whole.ram
  /-- The second begins with what the first wrote. -/
  second_ram : second.ram = first.target
  /-- Together they run as many frames. -/
  frames : whole.times.length = first.times.length + second.times.length

end Application

/-- Passes over lists that differ in places, descriptions and rumbles at most do the same to
memory and count the same, one by one, at whatever times. So when two apply commands apply a cheat
file in two parts, the first writing to another file than that one, and a third applies it at once,
each by its own settings and its own clock, and all go through, then the same bytes are written in
the end, and the tallies that the two report add up to the one that the third reports. -/
theorem rumble_leaves_memory (cheats others : List Cheat) (memory : Bytes)
    (times later : List Nat) (whole first second : Application) (files : FileTree) :
    (cheats.map Cheat.bare = others.map Cheat.bare → times.length = later.length →
      passesOver cheats memory times = passesOver others memory later) ∧
    (whole.Splits first second → files.locate first.target ≠ files.locate whole.file →
      let between := (first.run files).2
      (first.run files).1.1 = .ok () → (second.run between).1.1 = .ok () →
      (whole.run files).1.1 = .ok () →
      ∃ content head tail,
        (second.run between).2.read second.target = .ok content ∧
        (whole.run files).2.read whole.target = .ok content ∧
        (first.run files).1.2 =
          { progress := ApplyCommand.report first.times.length head first.target } ∧
        (second.run between).1.2 =
          { progress := ApplyCommand.report second.times.length tail second.target } ∧
        (whole.run files).1.2 =
          { progress := ApplyCommand.report whole.times.length (head.add tail) whole.target }) := by
  refine ⟨fun h hlength => passesOver_congr h hlength memory, fun hsplit hother => ?_⟩
  intro between hfirst hsecond hwhole
  obtain ⟨head, happlied, hhead⟩ := Application.exists_of_run hfirst
  obtain ⟨tail, hreapplied, htail⟩ := Application.exists_of_run hsecond
  obtain ⟨total, hwholly, htotal⟩ := Application.exists_of_run hwhole
  have hframes : whole.times.length = (first.times ++ second.times).length := by
    rw [List.length_append, hsplit.frames]
  rw [hsplit.first_file, hsplit.first_ram, ApplyCommand.applied_eq_ok_iff] at happlied
  rw [hsplit.second_file, hsplit.second_ram, ApplyCommand.applied_eq_ok_iff] at hreapplied
  rw [ApplyCommand.applied_congr hframes, ApplyCommand.applied_eq_ok_iff] at hwholly
  obtain ⟨dump, count, list, hdump, hlist, hwrite, rfl⟩ := happlied
  obtain ⟨handed, again, reloaded, hhanded, hreloaded, hrewrite, rfl⟩ := hreapplied
  obtain ⟨same, alike, loaded, hsame, hloaded, hwritten, rfl⟩ := hwholly
  -- The whole command begins with the same dump and cheats, and the second with the same cheats and
  -- what the first made of the dump.
  cases hdump.symm.trans hsame
  cases hlist.symm.trans hloaded
  cases (CheatList.load_of_write hlist hwrite hother).symm.trans hreloaded
  cases (FileTree.read_write_self hwrite).symm.trans hhanded
  rw [passesOver_append, memoryAfter_append] at hwritten
  rw [passesOver_append, tallyOf_append] at htotal
  exact ⟨_, _, _, FileTree.read_write_self hrewrite, FileTree.read_write_self hwritten, hhead,
    htail, htotal⟩

/-- A cheat that adds one to a byte and rumbles when it changes: two frames and then one more do
what three frames do, whenever the frames are, and another rumble changes nothing. -/
theorem rumble_leaves_memory_of_three_frames :
    let patch : Patch := { operation := .increase, value := 1, rumble := { trigger := .changes } }
    let quiet : Patch := { patch with rumble := {}, rumbleState := { warmup := 7 } }
    let list := ({} : CheatList).push { enabled := true, effect := .patch patch }
    let files : FileTree :=
      { nodes := [(["list"], .file (encodeText (list.fileText {}))), (["dump"], .file #[1, 2])] }
    let first : Application :=
      { file := "list", ram := "dump", times := [0, 9], output := some "half" }
    let second : Application :=
      { settings := { region := .videoRam }, file := "list", ram := "half", times := [3] }
    let whole : Application := { file := "list", ram := "dump", times := [5, 5, 6] }
    passesOver list.entries #[1, 2] [0, 9] =
        passesOver [{ index := 4, enabled := true, effect := .patch quiet }] #[1, 2] [5, 5] ∧
      ∃ content, (second.run (first.run files).2).2.read "half" = .ok content ∧
        (whole.run files).2.read "dump" = .ok content := by
  intro patch quiet list files first second whole
  have hload : ∀ tree : FileTree, tree.read "list" = .ok (encodeText (list.fileText {})) →
      ((({} : CheatList).load "list" false : StateM FileTree _) tree).1 = (.ok 1, list) := by
    intro tree hread
    rw [CheatList.load_eq, hread]
    dsimp only [Except.bind]
    rw [decodeText_encodeText]
    dsimp only
    rw [CheatList.loadDocument_fileText (List.cons_ne_nil _ _) (by decide)]
    rfl
  have hrun : ∀ (application : Application) (tree written : FileTree) (dump : Bytes),
      application.file = "list" → tree.read "list" = .ok (encodeText (list.fileText {})) →
      tree.read application.ram = .ok dump →
      tree.write application.target
          (memoryAfter dump (passesOver list.entries dump application.times)) = .ok written →
      (application.run tree).1.1 = .ok () ∧ (application.run tree).2 = written := by
    intro application tree written dump hfile hlist hdump hwrite
    have happlied := ApplyCommand.applied_eq_ok_iff.2
      ⟨dump, 1, list, hdump, hload tree hlist, hwrite, rfl⟩
    rw [Application.run, ApplyCommand.on_run, hfile, ← Application.target, happlied]
    exact ⟨rfl, rfl⟩
  let half := files.insert ["half"] (.file #[3, 2])
  have htwo : memoryAfter #[1, 2] (passesOver list.entries #[1, 2] [0, 9]) = #[3, 2] := by
    decide +kernel
  have hone : memoryAfter #[3, 2] (passesOver list.entries #[3, 2] [3]) = #[4, 2] := by
    decide +kernel
  have hthree : memoryAfter #[1, 2] (passesOver list.entries #[1, 2] [5, 5, 6]) = #[4, 2] := by
    decide +kernel
  have hdump : files.read "dump" = .ok #[1, 2] := rfl
  have hhanded : half.read "half" = .ok #[3, 2] := rfl
  have hputHalf : files.write "half" #[3, 2] = .ok half := rfl
  have hputAgain : half.write "half" #[4, 2] = .ok (half.insert ["half"] (.file #[4, 2])) := rfl
  have hputDump : files.write "dump" #[4, 2] = .ok (files.insert ["dump"] (.file #[4, 2])) := rfl
  obtain ⟨hfirst, hhalf⟩ := hrun first files half #[1, 2] rfl rfl hdump
    (by rw [htwo]; exact hputHalf)
  obtain ⟨hsecond, _⟩ := hrun second half _ #[3, 2] rfl rfl hhanded
    (by rw [hone]; exact hputAgain)
  obtain ⟨hwhole, _⟩ := hrun whole files _ #[1, 2] rfl rfl hdump
    (by rw [hthree]; exact hputDump)
  have hsplit : whole.Splits first second := ⟨rfl, rfl, rfl, rfl, rfl⟩
  have hother : files.locate first.target ≠ files.locate whole.file := by decide +kernel
  rw [← hhalf] at hsecond
  obtain ⟨hsame, happly⟩ := rumble_leaves_memory list.entries
    [{ index := 4, enabled := true, effect := .patch quiet }] #[1, 2] [0, 9] [5, 5] whole first
    second files
  obtain ⟨content, _, _, hparts, hwritten, _⟩ := happly hsplit hother hfirst hsecond hwhole
  exact ⟨hsame rfl rfl, content, hparts, hwritten⟩

end GameTrainer
