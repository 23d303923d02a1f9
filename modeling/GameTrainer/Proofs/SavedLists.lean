import GameTrainer.Proofs.FileWrites
import GameTrainer.Proofs.ListSteps
import GameTrainer.Proofs.RecordRoundTrip

/-!
# Lists in files

A list that is saved as a file of its own can be loaded into any list, in place of its entries
or behind them. What comes back are the entries that were saved, up to what is never saved: they
get new places, their rumbles are at rest and their texts stand on one line. Main statement:
loading a saved list gives just that and leaves the entries that were there with all that their
rumbles remember; and loading fails on just the files that cannot be read, are not text or
announce no cheats, and then leaves the list as it was.
-/

namespace GameTrainer

namespace CheatRecord

/-- A document announces no cheats when its count is missing, no numeral, or zero. -/
theorem announced_eq_zero_iff {document : Document} :
    announced document = 0 ↔
      document.get? countKey = none ∨
        ∃ raw, document.get? countKey = some raw ∧
          (Numeral.word? raw.toList = none ∨ Numeral.word? raw.toList = some 0) := by
  rw [announced, number, numberOr]
  cases document.get? countKey with
  | none => simp
  | some raw =>
    simp only [Option.map_some, Option.getD_some, numberOf, reduceCtorEq, Option.some.injEq,
      false_or, exists_eq_left']
    cases Numeral.word? raw.toList with
    | none => simp
    | some count => simp [← UInt32.toNat_inj]

/-- Reading a document fails when it announces no cheats. -/
theorem readAll_eq_error_iff {document : Document} {failure : Failure} :
    readAll document = .error failure ↔ announced document = 0 ∧ failure = .noCheats := by
  rw [readAll]
  by_cases hzero : announced document = 0
  · rw [if_pos hzero]
    simp [hzero, eq_comm]
  · rw [if_neg hzero]
    simp [hzero]

end CheatRecord

namespace Cheat

/-- The rumble of an entry that was read is at rest, as after a new warm-up. -/
@[simp] theorem restartRumble_saved (cheat : Cheat) (index : Nat) :
    (cheat.saved index).restartRumble = cheat.saved index := by
  obtain ⟨place, description, enabled, effect⟩ := cheat
  cases effect <;> rfl

end Cheat

namespace CheatList

/-- Entries that were saved, behind others, take the places there. -/
theorem renumber_append_saved (front entries : List Cheat) :
    renumber (front ++ entries.mapIdx Cheat.saved) =
      renumber front ++ entries.mapIdx fun i cheat => cheat.saved (front.length + i) := by
  rw [renumber, List.mapIdx_append, List.mapIdx_mapIdx]
  congr 1
  congr 1
  funext i cheat
  rw [Function.comp_apply, Nat.add_comm i]
  rfl

/-- Saving a list as a file of its own makes the directories that lead to it and writes the text
of its records. -/
theorem save_eq (list : CheatList) (files : FileTree) (path : String) :
    (list.save path true : StateM FileTree _) files =
      match files.createParents path with
      | (.error fault, made) => (.error (.file fault), made)
      | (.ok (), made) =>
        match made.write path (encodeText (list.fileText {})) with
        | .error fault => (.error (.file fault), made)
        | .ok written => (.ok (), written) := by
  rw [save, baseDocument, if_pos rfl, pure_bind]
  dsimp only
  rw [bind_apply]
  dsimp only [FileAccess.createParents]
  obtain ⟨outcome, made⟩ := files.createParents path
  cases outcome with
  | error fault => rfl
  | ok value =>
    dsimp only
    rw [bind_apply]
    dsimp only [FileAccess.writeBytes]
    cases made.write path (encodeText (list.fileText {})) <;> rfl

/-- A list that was saved as a file of its own stands there as the text of its records. -/
theorem read_of_save {list : CheatList} {files : FileTree} {path : String}
    (h : ((list.save path true : StateM FileTree _) files).1 = .ok ()) :
    ((list.save path true : StateM FileTree _) files).2.read path =
      .ok (encodeText (list.fileText {})) := by
  rw [save_eq] at h ⊢
  split at h
  · cases h
  · split at h
    · cases h
    · rename_i hwrite
      exact FileTree.read_write_self hwrite

/-- A list that was saved as a file of its own is loaded as the document of its records. -/
theorem load_of_save {list : CheatList} {files : FileTree} {path : String}
    (h : ((list.save path true : StateM FileTree _) files).1 = .ok ()) (other : CheatList)
    (append : Bool) :
    let saved := ((list.save path true : StateM FileTree _) files).2
    (other.load path append : StateM FileTree _) saved =
      (other.loadDocument (Document.parse (list.fileText {})) append, saved) := by
  intro saved
  rw [load_eq, read_of_save h]
  dsimp only [Except.bind]
  rw [decodeText_encodeText]

/-! ## Files that cannot be loaded -/

/-- The files from which no list can be loaded, with what loading says. -/
inductive Unloadable (files : FileTree) (path : String) : Failure → Prop where
  /-- Nothing can be read there, so when nothing is there. -/
  | unreadable {fault : FileFault} (h : files.read path = .error fault) :
      Unloadable files path (.file fault)
  /-- The content is no text's. -/
  | notText {content : Bytes} (h : files.read path = .ok content)
      (htext : ∀ text, content ≠ encodeText text) : Unloadable files path (.file .notText)
  /-- The text does not say how many cheats there are. -/
  | uncounted {text : String} (h : files.read path = .ok (encodeText text))
      (hcount : (Document.parse text).get? CheatRecord.countKey = none) :
      Unloadable files path .noCheats
  /-- What the text says of their number is no numeral, or zero. -/
  | empty {text raw : String} (h : files.read path = .ok (encodeText text))
      (hcount : (Document.parse text).get? CheatRecord.countKey = some raw)
      (hraw : Numeral.word? raw.toList = none ∨ Numeral.word? raw.toList = some 0) :
      Unloadable files path .noCheats

/-- Loading a document fails when it announces no cheats. -/
theorem loadDocument_eq_error_iff {list : CheatList} {document : Document} {append : Bool}
    {failure : Failure} :
    (list.loadDocument document append).1 = .error failure ↔
      CheatRecord.announced document = 0 ∧ failure = .noCheats := by
  rw [← CheatRecord.readAll_eq_error_iff, loadDocument]
  cases CheatRecord.readAll document <;> simp

/-- Loading fails on just the files from which no list can be loaded. -/
theorem load_eq_error_iff {list : CheatList} {files : FileTree} {path : String} {append : Bool}
    {failure : Failure} :
    ((list.load path append : StateM FileTree _) files).1.1 = .error failure ↔
      Unloadable files path failure := by
  rw [load_eq]
  dsimp only
  constructor
  · intro h
    cases hread : files.read path with
    | error fault =>
      rw [hread] at h
      cases h
      exact .unreadable hread
    | ok content =>
      rw [hread] at h
      dsimp only [Except.bind] at h
      cases hdecode : decodeText content with
      | error fault =>
        rw [hdecode] at h
        cases h
        obtain ⟨hother, rfl⟩ := decodeText_eq_error_iff.1 hdecode
        exact .notText hread hother
      | ok text =>
        rw [hdecode] at h
        rw [decodeText_eq_ok_iff.1 hdecode] at hread
        obtain ⟨hzero, rfl⟩ := loadDocument_eq_error_iff.1 h
        obtain hnone | ⟨raw, hraw, hnumeral⟩ := CheatRecord.announced_eq_zero_iff.1 hzero
        · exact .uncounted hread hnone
        · exact .empty hread hraw hnumeral
  · intro h
    cases h with
    | unreadable hread =>
      rw [hread]
      rfl
    | notText hread hother =>
      rw [hread]
      dsimp only [Except.bind]
      rw [decodeText_eq_error_iff.2 ⟨hother, rfl⟩]
    | uncounted hread hcount =>
      rw [hread]
      dsimp only [Except.bind]
      rw [decodeText_encodeText]
      exact loadDocument_eq_error_iff.2
        ⟨CheatRecord.announced_eq_zero_iff.2 (.inl hcount), rfl⟩
    | empty hread hcount hraw =>
      rw [hread]
      dsimp only [Except.bind]
      rw [decodeText_encodeText]
      exact loadDocument_eq_error_iff.2
        ⟨CheatRecord.announced_eq_zero_iff.2 (.inr ⟨_, hcount, hraw⟩), rfl⟩

/-! ## Loading -/

/-- The cheats of a list come back from its text, up to what is never saved. -/
theorem loadDocument_fileText {list : CheatList} (hne : list.entries ≠ [])
    (hlt : list.size < UInt32.size) (other : CheatList) (append : Bool) :
    other.loadDocument (Document.parse (list.fileText {})) append =
      (.ok list.size, if append then other.append (list.entries.mapIdx Cheat.saved)
        else other.replace (list.entries.mapIdx Cheat.saved)) := by
  have hempty := Document.lawful_empty
  have hlawful := CheatRecord.lawful_writeAll hempty list.entries
  have hkeys := CheatRecord.writable_keys_writeAll hempty
    (fun found hfound => by cases hfound) list.entries
  rw [loadDocument, fileText, CheatRecord.readAll_parse_render hlawful hkeys,
    CheatRecord.readAll_writeAll hempty hne hlt]
  dsimp only
  rw [List.length_mapIdx]
  rfl

/-- Entries that were saved are not restarted by a list that takes them up. -/
theorem map_restartRumble_saved (entries : List Cheat) :
    (entries.mapIdx Cheat.saved).map Cheat.restartRumble = entries.mapIdx Cheat.saved := by
  have hrest : ∀ cheat ∈ entries.mapIdx Cheat.saved, cheat.restartRumble = id cheat := by
    intro cheat hcheat
    obtain ⟨i, hi, rfl⟩ := List.mem_mapIdx.1 hcheat
    exact Cheat.restartRumble_saved entries[i] i
  rw [List.map_congr_left hrest, List.map_id]

/-- Once a list that has entries was saved as a file of its own, loading the file into any list
gives their number and puts what is saved of them, at their new places, behind the entries that
were there, which keep all but their places, or instead of them; the draft stays. And loading
fails on just the files that cannot be read, are not text or announce no cheats; it then leaves
all files and the list as they were. -/
theorem load_saved_list (list other : CheatList) (files : FileTree) (path : String) :
    (list.entries ≠ [] → list.size < UInt32.size →
      ((list.save path true : StateM FileTree _) files).1 = .ok () →
      let saved := ((list.save path true : StateM FileTree _) files).2
      (other.load path true : StateM FileTree _) saved =
          ((.ok list.size, { other with
            entries := renumber other.entries ++
              list.entries.mapIdx fun i cheat => cheat.saved (other.size + i) }), saved) ∧
        (other.load path false : StateM FileTree _) saved =
          ((.ok list.size, { other with entries := list.entries.mapIdx Cheat.saved }), saved)) ∧
      ∀ append failure,
        (((other.load path append : StateM FileTree _) files).1.1 = .error failure ↔
          Unloadable files path failure) ∧
        (Unloadable files path failure →
          (other.load path append : StateM FileTree _) files = ((.error failure, other), files) ∧
            other.step (.loadFile files path append) = other) := by
  refine ⟨fun hne hlt hsaved => ?_, fun append failure => ⟨load_eq_error_iff, fun h => ?_⟩⟩
  · intro saved
    rw [load_of_save hsaved, load_of_save hsaved, loadDocument_fileText hne hlt,
      loadDocument_fileText hne hlt]
    constructor
    · rw [if_pos rfl, append, withEntries, map_restartRumble_saved, renumber_append_saved]
      rfl
    · rw [if_neg Bool.false_ne_true, replace, withEntries, map_restartRumble_saved]
      have hplaces : renumber (list.entries.mapIdx Cheat.saved) =
          list.entries.mapIdx Cheat.saved := by
        simpa [renumber] using renumber_append_saved [] list.entries
      rw [hplaces]
  · have hrefused : ((other.load path append : StateM FileTree _) files).1 =
        (.error failure, other) :=
      Prod.ext (load_eq_error_iff.2 h)
        (other.spares_load path append files failure (load_eq_error_iff.2 h))
    refine ⟨Prod.ext hrefused (by rw [load_eq]), ?_⟩
    rw [step, tryStep, hrefused]
    rfl

/-- A code with a line end comes behind a patch whose warm-up is under way, and a file that is not
there leaves both. -/
theorem load_saved_code_behind_warm_up :
    let running : Cheat :=
      Cheat.ofPatch { rumble := { trigger := .changes }, rumbleState := { warmup := 2 } }
    let list := ({} : CheatList).push { description := some "a\nb", effect := .code "X" }
    let other := ({} : CheatList).push running
    let saved := ((list.save "d/list" true : StateM FileTree _) {}).2
    let loaded : CheatList :=
      { entries := [running, { index := 1, description := some "a b", effect := .code "X" }] }
    (other.load "d/list" true : StateM FileTree _) saved = ((.ok 1, loaded), saved) ∧
      loaded.step (.loadFile saved "d/none" false) = loaded := by
  intro running list other saved loaded
  have hok : ((list.save "d/list" true : StateM FileTree (Except Failure Unit)) {}).1 = .ok () :=
    rfl
  have hload := (load_saved_list list other {} "d/list").1 (List.cons_ne_nil _ _) (by decide) hok
  have hnone : saved.read "d/none" = .error .notFound := rfl
  have hleft := ((load_saved_list list loaded saved "d/none").2 false _).2 (.unreadable hnone)
  exact ⟨hload.1, hleft.2⟩

end CheatList

end GameTrainer
