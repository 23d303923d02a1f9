import GameTrainer.Trainer
import GameTrainer.Proofs.JoinedPaths
import GameTrainer.Proofs.KeptFiles

/-!
# Where the files of games are

The cheat file of a game stands in a directory of its core, below the database directory. Names
lose their slashes, so each of them is one name on the way; but a core that is called by two
points is none, and leads out of the database directory. Main statements: the path of a game goes
through the names of the database directory, the one of the core and the one of the game, in this
order, and through two points behind the database directory only if the core is called so; and
for every other core the file that is loaded stands below the database directory, and saving
changes no file elsewhere.
-/

namespace GameTrainer

namespace Settings

/-- Two points are left in a name only where they are all of it. -/
theorem fileName_eq_points_iff {name : String} : fileName name = ".." ↔ name = ".." := by
  constructor
  · intro h
    have hlist : name.toList.map (fun c => if c ∈ forbiddenInNames then '_' else c) =
        ['.', '.'] := by
      have htext := congrArg String.toList h
      rw [fileName, String.toList_ofList] at htext
      exact htext
    have hself : ∀ c ∈ name.toList, (if c ∈ forbiddenInNames then '_' else c) = c := by
      intro c hc
      have hpoint : (if c ∈ forbiddenInNames then '_' else c) ∈ ['.', '.'] :=
        hlist ▸ List.mem_map.2 ⟨c, hc, rfl⟩
      split
      · rename_i hforbidden
        rw [if_pos hforbidden] at hpoint
        exact absurd hpoint (by decide)
      · rfl
    rw [List.map_congr_left hself, List.map_id''] at hlist
    · rw [← String.toList_inj, hlist]
      rfl
    · exact fun _ => rfl
  · rintro rfl
    decide

/-- A file name is no path from the root. -/
theorem isAbsolute_of_slash_not_mem {name : String} (h : '/' ∉ name.toList) :
    FilePath.isAbsolute name = false := by
  rw [FilePath.isAbsolute, decide_eq_false_iff_not]
  exact fun hhead => h (List.mem_of_mem_head? hhead)

/-- The name of the file of a game has no slash. -/
theorem slash_not_mem_gameFile (game : String) : '/' ∉ (fileName game ++ ".cht").toList := by
  rw [String.toList_append, List.mem_append, not_or]
  exact ⟨slash_not_mem_fileName game, by decide⟩

/-- Behind the database directory the path of a game goes through the name of the core, unless
that is empty, and ends in the name of the game's file. -/
theorem parts_gamePathIn (directory core game : String) :
    FilePath.parts (gamePathIn directory core game) =
      (FilePath.parts directory ++ FilePath.parts (fileName core)) ++ [fileName game ++ ".cht"] := by
  have hfile := slash_not_mem_gameFile game
  have hname : fileName game ++ ".cht" ≠ "" := by
    intro h
    have htext := congrArg String.toList h
    rw [String.toList_append] at htext
    exact absurd htext (List.append_ne_nil_of_right_ne_nil _ (by decide))
  rw [gamePathIn, FilePath.parts_join _ (isAbsolute_of_slash_not_mem hfile),
    FilePath.parts_join _ (isAbsolute_of_slash_not_mem (slash_not_mem_fileName core)),
    FilePath.parts_of_slash_not_mem hfile, if_neg hname]

/-- The name of the file of a game is not two points, whatever the game is called. -/
theorem gameFile_ne_points (game : String) : fileName game ++ ".cht" ≠ ".." := by
  intro h
  have hlength := congrArg (fun text : String => text.toList.length) h
  rw [String.toList_append, List.length_append] at hlength
  have hextension : ".cht".toList.length = 4 := by decide
  have hpoints : "..".toList.length = 2 := by decide
  omega

/-- The way from the database directory to the file of a game goes through two points when the
core is called so, and only then. -/
theorem points_mem_iff {core : String} (game : String) :
    ".." ∈ FilePath.parts (fileName core) ++ [fileName game ++ ".cht"] ↔ core = ".." := by
  rw [List.mem_append, List.mem_singleton, FilePath.parts_of_slash_not_mem
    (slash_not_mem_fileName core), ← fileName_eq_points_iff]
  have hfile := Ne.symm (gameFile_ne_points game)
  split
  · rename_i hempty
    rw [hempty]
    simp [hfile]
  · rw [List.mem_singleton, or_iff_left hfile, eq_comm]

end Settings

namespace FileTree

/-- A place lies below the directory that a path leads to. -/
def Below (tree : FileTree) (directory : String) (place : List String) : Prop :=
  ∃ base, tree.follow (tree.start directory) (FilePath.parts directory) = .ok base ∧
    base <+: place ∧ place ≠ base

/-- The path of a game whose core is not called by two points leads below the database
directory. -/
theorem below_of_locate {tree : FileTree} {directory core game last : String}
    {parent : List String} (hcore : core ≠ "..")
    (h : tree.locate (Settings.gamePathIn directory core game) = .ok (.name parent last)) :
    tree.Below directory (parent ++ [last]) := by
  have hrelative := Settings.isAbsolute_of_slash_not_mem (Settings.slash_not_mem_fileName core)
  have habsolute : FilePath.isAbsolute (Settings.gamePathIn directory core game) =
      FilePath.isAbsolute directory := by
    rw [Settings.gamePathIn, FilePath.isAbsolute_join _
      (Settings.isAbsolute_of_slash_not_mem (Settings.slash_not_mem_gameFile game)),
      FilePath.isAbsolute_join _ hrelative]
  obtain ⟨_, hfollow⟩ := follow_of_locate h
  rw [Settings.parts_gamePathIn, List.dropLast_concat, start, habsolute, follow_append] at hfollow
  -- The path leads to the database directory first, and from there on without two points.
  obtain ⟨base, hbase, hrest⟩ := exists_of_bind_eq_ok hfollow
  have hpoints : ".." ∉ FilePath.parts (Settings.fileName core) := fun hmem =>
    hcore ((Settings.points_mem_iff game).1 (List.mem_append_left _ hmem))
  have hprefix := prefix_of_follow hpoints hrest
  refine ⟨base, hbase, hprefix.trans (List.prefix_append parent [last]), ?_⟩
  intro heq
  have hlength := hprefix.length_le
  rw [← heq, List.length_append, List.length_singleton] at hlength
  omega

end FileTree

namespace Trainer

variable {trainer : Trainer} {core game : String} {files : FileTree}

/-- What is loaded for a game comes from a file below the database directory. -/
theorem below_of_loadGame {reply : Reply Nat} {left : FileTree} {count : Nat}
    (hcore : core ≠ "..")
    (h : (trainer.loadGame core game : StateM FileTree (Reply Nat)) files = (reply, left))
    (hcount : reply.result = .ok count) :
    ∃ place text, files.Below trainer.settings.databaseDirectory place ∧
      files.node? place = some (.file (encodeText text)) ∧
      trainer.cheats.loadDocument (Document.parse text) false =
        (.ok count, reply.trainer.cheats) := by
  rw [loadGame, load_apply] at h
  cases hload : ((trainer.cheats.load (trainer.settings.gamePath core game) false :
      StateM FileTree (Outcome CheatList Nat)) files).1 with
  | mk result list =>
    rw [hload] at h
    obtain ⟨rfl, _⟩ := Prod.mk.inj h
    rw [result_report] at hcount
    dsimp only at hcount
    rw [hcount] at hload
    obtain ⟨text, hread, hlist⟩ := CheatList.exists_of_load_eq_ok hload
    obtain ⟨parent, last, hlocate, hchild, _⟩ := FileTree.read_eq_ok_iff.1 hread
    rw [trainer_report]
    exact ⟨parent ++ [last], text, FileTree.below_of_locate hcore hlocate,
      (FileTree.child_eq_ok_iff.1 hchild).2, hlist⟩

/-- Saving the list of a game leaves every file that is not below the database directory. -/
theorem below_of_saveGame {reply : Reply Unit} {saved : FileTree} (hcore : core ≠ "..")
    (h : (trainer.saveGame core game : StateM FileTree (Reply Unit)) files = (reply, saved))
    (place : List String) :
    saved.Below trainer.settings.databaseDirectory place ∨
      ∀ content, files.node? place = some (.file content) ↔
        saved.node? place = some (.file content) := by
  rw [saveGame, save_apply] at h
  cases hsave : (trainer.cheats.save (trainer.settings.gamePath core game) true :
      StateM FileTree (Except Failure Unit)) files with
  | mk outcome left =>
    rw [hsave] at h
    cases h
    obtain ⟨_, _, hsame⟩ | ⟨_, made, parent, last, hsame, hlocate, hplace, hinsert⟩ :=
      CheatList.save_files hsave
    · exact .inr (hsame place)
    · have hroot : parent ++ [last] ≠ [] := List.concat_ne_nil _ _
      dsimp only
      rw [hinsert]
      by_cases heq : place = parent ++ [last]
      · left
        rw [heq]
        exact FileTree.below_of_locate hcore (FileTree.locate_insert _ hroot hplace hlocate)
      · right
        intro content
        rw [FileTree.node?_insert _ _ hroot, if_neg heq]
        exact hsame place content

/-- The path of a game begins with the text of the database directory, starts where that does, and
goes through its names first; behind them it goes through two points only if the core is called
so. For every other core, all that is loaded comes from a file below the database directory, and
saving neither makes, changes nor removes a file elsewhere. -/
theorem game_files_stay_below (trainer : Trainer) (core game : String) (files : FileTree) :
    let directory := trainer.settings.databaseDirectory
    let path := trainer.settings.gamePath core game
    let loaded := (trainer.loadGame core game : StateM FileTree (Reply Nat)) files
    let saved := ((trainer.saveGame core game : StateM FileTree (Reply Unit)) files).2
    directory.toList <+: path.toList ∧
      FilePath.isAbsolute path = FilePath.isAbsolute directory ∧
      (∃ way, FilePath.parts path = FilePath.parts directory ++ way ∧ (".." ∈ way ↔ core = "..")) ∧
      (core ≠ ".." →
        loaded.2 = files ∧
        (∀ count, loaded.1.result = .ok count →
          ∃ place text, files.Below directory place ∧
            files.node? place = some (.file (encodeText text)) ∧
            trainer.cheats.loadDocument (Document.parse text) false =
              (.ok count, loaded.1.trainer.cheats)) ∧
        ∀ place, saved.Below directory place ∨
          ∀ content, files.node? place = some (.file content) ↔
            saved.node? place = some (.file content)) := by
  intro directory path loaded saved
  have hcore := Settings.isAbsolute_of_slash_not_mem (Settings.slash_not_mem_fileName core)
  have hfile := Settings.isAbsolute_of_slash_not_mem (Settings.slash_not_mem_gameFile game)
  refine ⟨?_, ?_, ?_, fun hne => ⟨?_, ?_, ?_⟩⟩
  · exact (FilePath.prefix_join _ hcore).trans (FilePath.prefix_join _ hfile)
  · exact (FilePath.isAbsolute_join _ hfile).trans (FilePath.isAbsolute_join _ hcore)
  · exact ⟨_, (Settings.parts_gamePathIn directory core game).trans (List.append_assoc ..),
      Settings.points_mem_iff game⟩
  · exact congrArg Prod.snd (trainer.load_apply files path false)
  · intro count hcount
    exact below_of_loadGame hne (Prod.eta loaded).symm hcount
  · intro place
    exact below_of_saveGame hne (Prod.eta _).symm place

/-- A core called by one point and a game called by two: the file stands in the database
directory, and its list is loaded from there. -/
theorem dotted_game_stays_below :
    let trainer : Trainer :=
      { settings := { databaseDirectory := "db" }
        cheats := ({} : CheatList).push { effect := .code "X" } }
    let content := encodeText (trainer.cheats.fileText {})
    let files : FileTree :=
      { nodes := [(["db"], .directory), (["db", "...cht"], .file content)] }
    (∃ place text, files.Below "db" place ∧
      files.node? place = some (.file (encodeText text)) ∧
      trainer.cheats.loadDocument (Document.parse text) false = (.ok 1, trainer.cheats)) ∧
    ∀ place, ((trainer.saveGame "." ".." : StateM FileTree (Reply Unit)) files).2.Below "db" place ∨
      ∀ content, files.node? place = some (.file content) ↔
        ((trainer.saveGame "." ".." : StateM FileTree (Reply Unit)) files).2.node? place =
          some (.file content) := by
  intro trainer content files
  have hpath : trainer.settings.gamePath "." ".." = "db/./...cht" := by decide +kernel
  have hread : files.read "db/./...cht" = .ok content := rfl
  have hload : ((trainer.cheats.load (trainer.settings.gamePath "." "..") false :
      StateM FileTree _) files).1 = (.ok 1, trainer.cheats) := by
    rw [hpath, CheatList.load_eq, hread]
    dsimp only [Except.bind]
    rw [decodeText_encodeText]
    dsimp only
    rw [CheatList.loadDocument_fileText (List.cons_ne_nil _ _) (by decide)]
    rfl
  obtain ⟨_, _, _, hbelow⟩ := trainer.game_files_stay_below "." ".." files
  obtain ⟨_, hloaded, hsaved⟩ := hbelow (by decide)
  rw [loadGame, load_apply, hload] at hloaded
  exact ⟨hloaded 1 rfl, hsaved⟩

/-- A core called by two points: the path goes through them behind the database directory, and
the list is saved beside that directory, not below it. -/
theorem points_lead_out_of_database :
    let trainer : Trainer := { settings := { databaseDirectory := "db" } }
    let files : FileTree := { nodes := [(["db"], .directory)] }
    let saved := ((trainer.saveGame ".." "x" : StateM FileTree (Reply Unit)) files).2
    FilePath.parts (trainer.settings.gamePath ".." "x") =
        FilePath.parts trainer.settings.databaseDirectory ++ ["..", "x.cht"] ∧
      files.node? ["x.cht"] = none ∧
      saved.node? ["x.cht"] = some (.file (encodeText (trainer.cheats.fileText {}))) ∧
      ¬ saved.Below trainer.settings.databaseDirectory ["x.cht"] := by
  intro trainer files saved
  let content := encodeText (trainer.cheats.fileText {})
  let left := files.insert ["x.cht"] (.file content)
  have hpath : trainer.settings.gamePath ".." "x" = "db/../x.cht" := by decide +kernel
  have hparents : files.createParents "db/../x.cht" = (.ok (), files) := rfl
  have hwrite : files.write "db/../x.cht" content = .ok left := rfl
  have hsaved : saved = left := by
    dsimp only [saved]
    rw [saveGame, save_apply, hpath, CheatList.save_eq, hparents]
    dsimp only
    rw [hwrite]
  rw [hsaved]
  refine ⟨by rw [hpath]; decide +kernel, rfl, rfl, ?_⟩
  rintro ⟨base, hbase, hprefix, _⟩
  have hdatabase : left.follow (left.start "db") (FilePath.parts "db") = .ok ["db"] := rfl
  cases hdatabase.symm.trans hbase
  exact absurd hprefix (by decide)

end Trainer

end GameTrainer
