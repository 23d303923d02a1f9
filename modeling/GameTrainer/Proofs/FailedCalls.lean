import GameTrainer.Trainer
import GameTrainer.Proofs.RefusedOperations

/-!
# Calls that fail

A host calls a trainer, hands it the core's memory and its files, shows the notes that it asks
for, and passes codes on to the core. A call can fail early or late: without a search, on a
region that is gone or has another size, at an index out of range, with too many matches, or
on a file that cannot be read or written. The trainer then keeps what the operation left of its
cheats and its search. Main statement: whatever a call fails on, that is what they were, and all
that it leaves behind beside the files is one note with the words of the failure; only a search
that was to give way to a new one is gone.
-/

namespace GameTrainer

/-- What a host can call a trainer for. -/
inductive TrainerCall where
  /-- To begin a search, in place of any other. -/
  | beginSearch
  /-- To give up the search. -/
  | endSearch
  /-- To narrow the search by a query. -/
  | searchStep (query : Query)
  /-- To add every match to the cheat list. -/
  | addMatches
  /-- To look at, add or rule out one match. -/
  | matchAction (action : MatchAction) (index : Nat)
  /-- To apply the patches to the region of the settings, at a time. -/
  | runFrame (now : Nat)
  /-- To hand the enabled codes to the core. -/
  | applyCoreCheats
  /-- To switch a cheat on or off. -/
  | toggle (index : Nat)
  /-- To load a cheat file. -/
  | load (path : String) (append : Bool)
  /-- To save the cheat list. -/
  | save (path : String) (overwrite : Bool)
  /-- To exchange the cheat list for the one of a game. -/
  | loadGame (core game : String)
  /-- To save the cheat list as the one of a game. -/
  | saveGame (core game : String)
  deriving DecidableEq

/-- A trainer with all that its host keeps for it: its files, in whatever form, the codes that
the core was given, and the notes that were shown, in order. -/
structure Hosted (Files : Type) where
  /-- The trainer. -/
  trainer : Trainer
  /-- The files. -/
  files : Files
  /-- The codes that the core has. -/
  core : CoreCodes := {}
  /-- The notes so far. -/
  notes : List Note := []

namespace Trainer

/-- The trainer that a failing call leaves: the same one, but without the search that was to
give way to a new one. -/
def leftBy (trainer : Trainer) : TrainerCall → Trainer
  | .beginSearch => { trainer with search := none }
  | _ => trainer

end Trainer

/-- If the reply tells of a failure, the trainer is the one that was to be left, and nothing is
asked of the host but to show a note with the words of the failure. -/
def Reply.Refuses {α : Type} (reply : Reply α) (left : Trainer) : Prop :=
  ∀ failure, reply.result = .error failure →
    reply.trainer = left ∧ reply.requests = [Trainer.say failure.message]

namespace Trainer

variable {α : Type} {trainer : Trainer}

/-- What spares a trainer refuses with a note. -/
theorem refuses_report {outcome : Outcome Trainer α} {left : Trainer} (h : outcome.Spares left)
    (requests : α → List Request) : (report outcome requests).Refuses left := by
  intro failure hfail
  obtain ⟨_, _, rfl⟩ | ⟨found, rfl⟩ := h.ok_or_error
  · cases hfail
  · cases hfail
    exact ⟨rfl, rfl⟩

/-- What is done with the search under way is a refusal or what is done with some search. -/
theorem withSearch_induction (holds : Outcome Trainer α → Prop)
    {action : Search → Outcome Trainer α}
    (hrefused : ∀ failure, holds (.error failure, trainer))
    (haction : ∀ search, trainer.search = some search → holds (action search)) :
    holds (trainer.withSearch action) := by
  rw [withSearch]
  split
  · rename_i search hsearch
    exact haction search hsearch
  · exact hrefused _

theorem withLiveSearch_induction (holds : Outcome Trainer α → Prop) {memory : CoreMemory}
    {action : Search → Bytes → Outcome Trainer α}
    (hrefused : ∀ failure, holds (.error failure, trainer))
    (haction : ∀ search current, trainer.search = some search → holds (action search current)) :
    holds (trainer.withLiveSearch memory action) := by
  apply withSearch_induction holds hrefused
  intro search hsearch
  split
  · exact haction search _ hsearch
  · exact hrefused _

/-- A trainer with the search that it has. -/
theorem with_search_self {search : Search} (h : trainer.search = some search) :
    { trainer with search := some search } = trainer := by
  rw [← h]

/-! ## Each operation -/

theorem refuses_beginSearch (trainer : Trainer) (memory : CoreMemory) :
    (trainer.beginSearch memory).Refuses trainer.endSearch := by
  apply refuses_report
  split
  · exact Outcome.spares_ok _ _ _
  · exact Outcome.spares_error _ trainer.endSearch

theorem refuses_searchStep (trainer : Trainer) (memory : CoreMemory) (query : Query) :
    (trainer.searchStep memory query).Refuses trainer := by
  apply refuses_report
  refine withSearch_induction (·.Spares trainer) (Outcome.spares_error · trainer) ?_
  intro search hsearch
  have hspared := (search.spares_step memory query).within
    fun left => { trainer with search := some left }
  rwa [with_search_self hsearch] at hspared

theorem refuses_addMatches (trainer : Trainer) (memory : CoreMemory) :
    (trainer.addMatches memory).Refuses trainer := by
  apply refuses_report
  refine withLiveSearch_induction (·.Spares trainer) (Outcome.spares_error · trainer) ?_
  intro search current _
  exact (trainer.cheats.spares_addMatches search current).within
    fun cheats => { trainer with cheats := cheats }

theorem refuses_matchAction (trainer : Trainer) (memory : CoreMemory) (action : MatchAction)
    (index : Nat) : (trainer.matchAction memory action index).Refuses trainer := by
  apply refuses_report
  refine withLiveSearch_induction (·.Spares trainer) (Outcome.spares_error · trainer) ?_
  intro search current hsearch
  have hspared := (trainer.cheats.spares_act search current action index).within
    fun left => { trainer with cheats := left.1, search := some left.2 }
  dsimp only at hspared
  rwa [with_search_self hsearch] at hspared

theorem refuses_toggle (trainer : Trainer) (index : Nat) :
    (trainer.toggle index).Refuses trainer := by
  apply refuses_report
  exact (trainer.cheats.spares_toggle index).within
    fun cheats => { trainer with cheats := cheats }

section Files

variable {Files : Type} [FileAccess (StateM Files)]

theorem refuses_load (trainer : Trainer) (path : String) (append : Bool) (files : Files) :
    ((trainer.load path append : StateM Files (Reply Nat)) files).1.Refuses trainer := by
  rw [load, bind_apply]
  apply refuses_report
  exact (trainer.cheats.spares_load path append files).within
    fun cheats => { trainer with cheats := cheats }

/-- Saving does not touch the trainer. -/
theorem refuses_save (trainer : Trainer) (path : String) (overwrite : Bool) (files : Files) :
    ((trainer.save path overwrite : StateM Files (Reply Unit)) files).1.Refuses trainer := by
  rw [save, bind_apply]
  apply refuses_report
  exact fun _ _ => rfl

end Files

end Trainer

namespace Hosted

variable {Files : Type}

/-- Take a reply: the trainer that it leaves, with the files as they are then, and what it asks
of the host carried out. -/
def take {α : Type} (hosted : Hosted Files) (reply : Reply α) (files : Files) :
    Except Failure Unit × Hosted Files :=
  (reply.result.map fun _ => (),
    { trainer := reply.trainer, files := files, core := hosted.core.receiveAll reply.requests,
      notes := hosted.notes ++ GameTrainer.notes reply.requests })

/-- Call a trainer while the core exposes a memory. -/
def call [FileAccess (StateM Files)] (hosted : Hosted Files) (memory : CoreMemory) :
    TrainerCall → Except Failure Unit × Hosted Files
  | .beginSearch => hosted.take (hosted.trainer.beginSearch memory) hosted.files
  | .endSearch => (.ok (), { hosted with trainer := hosted.trainer.endSearch })
  | .searchStep query => hosted.take (hosted.trainer.searchStep memory query) hosted.files
  | .addMatches => hosted.take (hosted.trainer.addMatches memory) hosted.files
  | .matchAction action index =>
    hosted.take (hosted.trainer.matchAction memory action index) hosted.files
  | .runFrame now =>
    (.ok (), { hosted with trainer := (hosted.trainer.runFrame memory now).trainer })
  | .applyCoreCheats => hosted.take hosted.trainer.applyCoreCheats hosted.files
  | .toggle index => hosted.take (hosted.trainer.toggle index) hosted.files
  | .load path append =>
    let replied := (hosted.trainer.load path append : StateM Files (Reply Nat)) hosted.files
    hosted.take replied.1 replied.2
  | .save path overwrite =>
    let replied := (hosted.trainer.save path overwrite : StateM Files (Reply Unit)) hosted.files
    hosted.take replied.1 replied.2
  | .loadGame core game =>
    let replied := (hosted.trainer.loadGame core game : StateM Files (Reply Nat)) hosted.files
    hosted.take replied.1 replied.2
  | .saveGame core game =>
    let replied := (hosted.trainer.saveGame core game : StateM Files (Reply Unit)) hosted.files
    hosted.take replied.1 replied.2

/-- What is left of a call that failed: the trainer, the files as they are then, the core with
the codes that it had, and one more note with the words of the failure. -/
def noted (hosted : Hosted Files) (trainer : Trainer) (files : Files) (failure : Failure) :
    Hosted Files :=
  { hosted with
    trainer := trainer
    files := files
    notes := hosted.notes ++ [{ message := failure.message }] }

/-- A refusal that is taken leaves a note beside what the reply left. -/
theorem take_of_refuses {α : Type} {hosted : Hosted Files} {reply : Reply α} {left : Trainer}
    {files : Files} {failure : Failure} (hreply : reply.Refuses left)
    (h : (hosted.take reply files).1 = .error failure) :
    (hosted.take reply files).2 = hosted.noted left files failure := by
  have hresult : reply.result = .error failure := by
    rw [take] at h
    cases hfound : reply.result with
    | ok answer =>
      rw [hfound] at h
      cases h
    | error found =>
      rw [hfound] at h
      cases h
      rfl
  obtain ⟨htrainer, hrequests⟩ := hreply failure hresult
  rw [take, htrainer, hrequests]
  rfl

variable [FileAccess (StateM Files)]

/-- A call that fails, on whatever and wherever it fails, leaves the settings, the cheat list
with its draft and all that its rumbles remember, the search and the core's codes as they were,
and one more note with the words of the failure. Only beginning a search leaves no search. -/
theorem failed_call_leaves_note (hosted : Hosted Files) (memory : CoreMemory)
    (call : TrainerCall) {failure : Failure}
    (h : (hosted.call memory call).1 = .error failure) :
    (hosted.call memory call).2 =
      hosted.noted (hosted.trainer.leftBy call) (hosted.call memory call).2.files failure := by
  cases call with
  -- These cannot fail.
  | endSearch | runFrame now | applyCoreCheats => cases h
  | beginSearch => exact take_of_refuses (hosted.trainer.refuses_beginSearch memory) h
  | searchStep query => exact take_of_refuses (hosted.trainer.refuses_searchStep memory query) h
  | addMatches => exact take_of_refuses (hosted.trainer.refuses_addMatches memory) h
  | matchAction action index =>
    exact take_of_refuses (hosted.trainer.refuses_matchAction memory action index) h
  | toggle index => exact take_of_refuses (hosted.trainer.refuses_toggle index) h
  | load path append => exact take_of_refuses (hosted.trainer.refuses_load path append _) h
  | save path overwrite => exact take_of_refuses (hosted.trainer.refuses_save path overwrite _) h
  | loadGame core game => exact take_of_refuses (hosted.trainer.refuses_load _ false _) h
  | saveGame core game => exact take_of_refuses (hosted.trainer.refuses_save _ true _) h

/-- A save that makes a directory and then cannot write its file, and a search that cannot
begin in place of another one. -/
theorem failed_save_and_search_leave_notes :
    let search : Search := ⟨⟨.systemRam, .bits8, false, #[7]⟩, Candidates.all 1 .bits8⟩
    let hosted : Hosted FileTree :=
      { trainer := { cheats := ({} : CheatList).push { effect := .code "A" }, search := some search }
        files := {}
        core := ⟨1, [(0, true, "A")]⟩ }
    let saved := (hosted.call {} (.save "d/x/" true)).2
    (hosted.call {} (.save "d/x/" true)).1 = .error (.file .isADirectory) ∧
      saved = { hosted with
        files := saved.files
        notes := [{ message := "IO error: Is a directory (os error 21)" }] } ∧
      saved.files.nodes = [(["d"], .directory)] ∧
      (hosted.call {} .beginSearch).1 =
        .error (.memoryUnavailable (.absent .systemRam)) ∧
      (hosted.call {} .beginSearch).2 = { hosted with
        trainer := { hosted.trainer with search := none }
        notes := [{ message := "Core memory unavailable: core exposes no SystemRam region" }] } := by
  intro search hosted saved
  have hsave : (hosted.call {} (.save "d/x/" true)).1 = .error (.file .isADirectory) := rfl
  have hbegin : (hosted.call {} .beginSearch).1 =
      .error (.memoryUnavailable (.absent .systemRam)) := rfl
  refine ⟨hsave, hosted.failed_call_leaves_note {} _ hsave, by decide +kernel, hbegin, ?_⟩
  exact hosted.failed_call_leaves_note {} _ hbegin

end Hosted

end GameTrainer
