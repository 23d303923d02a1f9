import GameTrainer.Trainer
import GameTrainer.Proofs.SavedLists

/-!
# Files that are kept

Saving a list makes the directories that lead to its file and then writes the file. Main
statements: directories are only made where nothing stands, so that making them leaves every file
as it is, also when it fails half-way; and a list that is saved leaves every file but its own,
while one that cannot be saved leaves them all.
-/

namespace GameTrainer

namespace FileTree

/-- Two trees have the same files with the same content, whatever their directories are. -/
def SameFiles (first second : FileTree) : Prop :=
  ∀ place content, first.node? place = some (.file content) ↔
    second.node? place = some (.file content)

theorem SameFiles.refl (tree : FileTree) : tree.SameFiles tree := fun _ _ => Iff.rfl

theorem SameFiles.trans {first second third : FileTree} (h : first.SameFiles second)
    (hlater : second.SameFiles third) : first.SameFiles third :=
  fun place content => (h place content).trans (hlater place content)

variable {tree made : FileTree} {path : String}

/-- A directory is made where nothing stands, and all files are kept. -/
theorem sameFiles_of_createDirectory (h : tree.createDirectory path = .ok made) :
    tree.SameFiles made := by
  obtain ⟨target, _, h⟩ := exists_of_bind_eq_ok h
  cases target with
  | directory => cases h
  | name parent last =>
    dsimp only at h
    split at h
    · cases h
    · rename_i hnone
      cases h
      have hroot : parent ++ [last] ≠ [] := List.concat_ne_nil _ _
      intro place content
      rw [node?_insert place _ hroot]
      split
      · rename_i hplace
        rw [hplace, (child_eq_notFound_iff.1 hnone).2]
        simp
      · exact Iff.rfl
    · cases h

theorem sameFiles_of_ensureDirectory (h : tree.ensureDirectory path = .ok made) :
    tree.SameFiles made := by
  rw [ensureDirectory] at h
  split at h
  · rename_i hmade
    cases h
    exact sameFiles_of_createDirectory hmade
  · split at h
    · cases h
      exact .refl tree
    · cases h

/-- Making directories keeps all files, and also where it fails. -/
theorem sameFiles_ensureDirectories (tree : FileTree) (paths : List String) :
    tree.SameFiles (tree.ensureDirectories paths).2 := by
  induction paths with
  | nil => exact .refl tree
  | cons path above ih =>
    rw [ensureDirectories]
    -- The directories above are made first only where they are missing.
    split
    · split
      · rename_i between habove
        rw [habove] at ih
        refine ih.trans ?_
        dsimp only
        cases hmade : between.ensureDirectory path with
        | ok made => exact sameFiles_of_ensureDirectory hmade
        | error fault => exact .refl between
      · exact ih
    · dsimp only
      cases hmade : tree.ensureDirectory path with
      | ok made => exact sameFiles_of_ensureDirectory hmade
      | error fault => exact .refl tree

theorem sameFiles_createParents (tree : FileTree) (path : String) :
    tree.SameFiles (tree.createParents path).2 :=
  tree.sameFiles_ensureDirectories _

end FileTree

namespace CheatList

/-- What was loaded from a file comes from the document that its text holds. -/
theorem exists_of_load_eq_ok {list loaded : CheatList} {files : FileTree} {path : String}
    {append : Bool} {count : Nat}
    (h : ((list.load path append : StateM FileTree _) files).1 = (.ok count, loaded)) :
    ∃ text, files.read path = .ok (encodeText text) ∧
      list.loadDocument (Document.parse text) append = (.ok count, loaded) := by
  rw [load_eq] at h
  dsimp only at h
  split at h
  · rename_i text htext
    obtain ⟨content, hread, hdecode⟩ := exists_of_bind_eq_ok htext
    rw [decodeText_eq_ok_iff.1 hdecode] at hread
    exact ⟨text, hread, h⟩
  · cases h

/-- A list that cannot be saved leaves all files. One that is saved leaves all but the one that
its path leads to, once the directories to it were made. -/
theorem save_files {list : CheatList} {files saved : FileTree} {path : String}
    {outcome : Except Failure Unit}
    (h : (list.save path true : StateM FileTree (Except Failure Unit)) files = (outcome, saved)) :
    (∃ failure, outcome = .error failure ∧ files.SameFiles saved) ∨
      outcome = .ok () ∧ ∃ made parent last, files.SameFiles made ∧
        made.locate path = .ok (.name parent last) ∧
        made.node? (parent ++ [last]) ≠ some .directory ∧
        saved = made.insert (parent ++ [last]) (.file (encodeText (list.fileText {}))) := by
  have hkept := files.sameFiles_createParents path
  rw [save_eq] at h
  cases hparents : files.createParents path with
  | mk created made =>
    rw [hparents] at h hkept
    cases created with
    | error fault =>
      cases h
      exact .inl ⟨_, rfl, hkept⟩
    | ok value =>
      dsimp only at h
      cases hwrite : made.write path (encodeText (list.fileText {})) with
      | error fault =>
        rw [hwrite] at h
        cases h
        exact .inl ⟨_, rfl, hkept⟩
      | ok written =>
        rw [hwrite] at h
        cases h
        obtain ⟨parent, last, hlocate, _, _, hplace, hinsert⟩ := FileTree.write_eq_ok hwrite
        exact .inr ⟨rfl, made, parent, last, hkept, hlocate, hplace, hinsert⟩

end CheatList

/-! ## Trainers -/

namespace Trainer

/-- A trainer loads a cheat file as its list does, and leaves all files. -/
theorem load_apply (trainer : Trainer) (files : FileTree) (path : String) (append : Bool) :
    let loaded := ((trainer.cheats.load path append : StateM FileTree _) files).1
    (trainer.load path append : StateM FileTree (Reply Nat)) files =
      (report (loaded.1, { trainer with cheats := loaded.2 }) fun count =>
        say ("Loaded " ++ toString count ++ " cheats") ::
          if trainer.settings.applyAfterLoad then coreRequests loaded.2 else [], files) := by
  rw [load, bind_apply, CheatList.load_eq]
  rfl

/-- A trainer saves its list as the list does. -/
theorem save_apply (trainer : Trainer) (files : FileTree) (path : String) (overwrite : Bool) :
    let saved := (trainer.cheats.save path overwrite : StateM FileTree _) files
    (trainer.save path overwrite : StateM FileTree (Reply Unit)) files =
      (report (saved.1, trainer) fun () =>
        [say ("Saved " ++ toString trainer.cheats.size ++ " cheats")], saved.2) := rfl

end Trainer

end GameTrainer
