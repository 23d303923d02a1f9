import GameTrainer.Proofs.EntryPlaces
import GameTrainer.Proofs.ListSheets

/-!
# Steps of a cheat list

A cheat list is acted on, and cheat files are loaded into it from whatever files there are.
Main statement: over every run from the empty list each entry carries its place, and the sheet
of the list is the one that the same steps lead to on sheets; a step goes through just when it
does on the sheet, and leaves the list when it does not; and the draft changes only when an
entry is staged or the draft is edited.
-/

namespace GameTrainer

/-- What can be done with a cheat list and the files beside it. -/
inductive ListStep where
  /-- The list is acted on. -/
  | act (action : ListAction)
  /-- A cheat file is loaded, from the files that are there then. -/
  | loadFile (files : FileTree) (path : String) (append : Bool)

namespace Sheet

/-- The sheet that a step of its list leads to, or why the step fails. -/
def tryStep (sheet : Sheet) : ListStep → Except Failure Sheet
  | .act action => sheet.attempt action
  | .loadFile files path append =>
    match (files.read path).bind decodeText with
    | .ok text => sheet.attempt (.load (Document.parse text) append)
    | .error fault => .error (.file fault)

/-- The sheet after a step, the same one when the step fails. -/
def step (sheet : Sheet) (step : ListStep) : Sheet :=
  (sheet.tryStep step).toOption.getD sheet

/-- The sheet that steps lead to, from the empty one. -/
def ofSteps (steps : List ListStep) : Sheet :=
  steps.foldl step {}

end Sheet

open Outcome

namespace CheatList

/-- What a step of a list leads to. -/
def tryStep (list : CheatList) : ListStep → Outcome CheatList Unit
  | .act action => list.attempt action
  | .loadFile files path append =>
    ((list.load path append : StateM FileTree (Outcome CheatList Nat)) files).1.forget

/-- The list that a step leaves. -/
def step (list : CheatList) (step : ListStep) : CheatList := (list.tryStep step).2

/-- The list that steps lead to, from the empty one. -/
def ofSteps (steps : List ListStep) : CheatList :=
  steps.foldl step {}

/-- Loading looks at the file and leaves all files. -/
theorem load_eq (list : CheatList) (files : FileTree) (path : String) (append : Bool) :
    (list.load path append : StateM FileTree _) files =
      (match (files.read path).bind decodeText with
        | .ok text => list.loadDocument (Document.parse text) append
        | .error fault => (.error (.file fault), list), files) := by
  have hread : (readDocument path : StateM FileTree (Except Failure Document)) files =
      ((((files.read path).bind decodeText).mapError .file).map Document.parse, files) := rfl
  rw [load, bind_apply, hread]
  cases (files.read path).bind decodeText <;> rfl

/-- Loading a file is loading the document that it holds, if it can be read. -/
theorem tryStep_loadFile (list : CheatList) (files : FileTree) (path : String) (append : Bool) :
    list.tryStep (.loadFile files path append) =
      match (files.read path).bind decodeText with
      | .ok text => list.attempt (.load (Document.parse text) append)
      | .error fault => (.error (.file fault), list) := by
  rw [tryStep, load_eq]
  cases (files.read path).bind decodeText <;> rfl

/-- A step that fails leaves the list. -/
theorem spares_tryStep (list : CheatList) (step : ListStep) :
    (list.tryStep step).Spares list := by
  cases step with
  | act action => exact list.spares_attempt action
  | loadFile files path append => exact (list.spares_load path append files).forget

/-- A step of a list is a step of its sheet. -/
theorem sheet_tryStep (list : CheatList) (step : ListStep) :
    (list.tryStep step).sheet = list.sheet.tryStep step := by
  cases step with
  | act action => exact list.sheet_attempt action
  | loadFile files path append =>
    rw [tryStep_loadFile, Sheet.tryStep]
    cases (files.read path).bind decodeText with
    | ok text => exact list.sheet_attempt _
    | error fault => rfl

theorem sheet_step (list : CheatList) (step : ListStep) :
    (list.step step).sheet = list.sheet.step step := by
  rw [CheatList.step, Sheet.step, ← list.sheet_tryStep step]
  obtain ⟨_, next, hstep⟩ | ⟨failure, hstep⟩ := (list.spares_tryStep step).ok_or_error
  · rw [hstep]
    rfl
  · rw [hstep]
    rfl

/-- The sheet of a list that steps lead to is the one that they lead to. -/
theorem sheet_ofSteps (steps : List ListStep) : (ofSteps steps).sheet = Sheet.ofSteps steps := by
  -- From any list, as the first step leads away from the empty one.
  have hfrom : ∀ list : CheatList,
      (steps.foldl step list).sheet = steps.foldl Sheet.step list.sheet := by
    induction steps with
    | nil => exact fun _ => rfl
    | cons first rest ih =>
      intro list
      rw [List.foldl_cons, ih, sheet_step, List.foldl_cons]
  exact hfrom {}

/-- The draft after a step: the entry that was staged or what the draft was edited into, and
else the draft as it was. -/
def drafted (list : CheatList) : ListStep → Cheat
  | .act (.stage index) => list.entries[index]?.getD list.draft
  | .act (.edit draft) => draft
  | _ => list.draft

/-- Only staging and editing change the draft. -/
theorem draft_of_leads {list next : CheatList} {action : ListAction}
    (hleads : list.Leads action next) : next.draft = list.drafted (.act action) := by
  cases hleads with
  | stage hcheat =>
    rw [drafted, hcheat]
    rfl
  | _ => rfl

/-- A step that goes through is an action that goes through and drafts the same. -/
theorem exists_leads_of_tryStep {list next : CheatList} {step : ListStep}
    (hok : list.tryStep step = (.ok (), next)) :
    ∃ action, list.Leads action next ∧ list.drafted (.act action) = list.drafted step := by
  cases step with
  | act action => exact ⟨action, leads_of_attempt hok, rfl⟩
  | loadFile files path append =>
    rw [tryStep_loadFile] at hok
    split at hok
    · exact ⟨_, leads_of_attempt hok, rfl⟩
    · cases hok

/-- A step leaves each entry with its place, whether it fails or not. -/
theorem numbered_step {list : CheatList} (h : Numbered list.entries) (step : ListStep) :
    Numbered (list.step step).entries := by
  refine (list.spares_tryStep step).induction (Numbered ·.entries) h ?_
  intro _ next hstep
  obtain ⟨action, hleads, _⟩ := exists_leads_of_tryStep hstep
  exact numbered_of_leads h hleads

/-- Every entry of a list that steps lead to carries its place. -/
theorem numbered_ofSteps (steps : List ListStep) : Numbered (ofSteps steps).entries := by
  have hfrom : ∀ list : CheatList, Numbered list.entries →
      Numbered (steps.foldl step list).entries := by
    induction steps with
    | nil => exact fun _ h => h
    | cons first rest ih => exact fun list h => ih _ (numbered_step h first)
  exact hfrom {} fun i cheat hcheat => by cases hcheat

/-- Over every run of steps, each entry carries its place and the sheet of the list is the
one that the steps lead to. A step goes through just when it does on the sheet, and then
the sheet changes by it, and the draft only when an entry is staged or the draft is edited;
a step that fails leaves the whole list as it was. -/
theorem list_follows_sheet (steps : List ListStep) (step : ListStep) :
    let list := ofSteps steps
    (∀ i cheat, list.entries[i]? = some cheat → i < UInt32.size → cheat.index.toNat = i) ∧
      list.sheet = Sheet.ofSteps steps ∧
      match list.tryStep step with
      | (.ok (), next) =>
        list.step step = next ∧ list.sheet.tryStep step = .ok next.sheet ∧
          next.draft = list.drafted step
      | (.error failure, left) =>
        left = list ∧ list.step step = list ∧ list.sheet.tryStep step = .error failure := by
  intro list
  refine ⟨fun i cheat hcheat hlt => ?_, sheet_ofSteps steps, ?_⟩
  · rw [numbered_ofSteps steps i cheat hcheat]
    exact UInt32.toNat_ofNat_of_lt' hlt
  · rw [← list.sheet_tryStep step, CheatList.step]
    obtain ⟨_, next, hstep⟩ | ⟨failure, hstep⟩ := (list.spares_tryStep step).ok_or_error
    · obtain ⟨action, hleads, hdrafted⟩ := exists_leads_of_tryStep hstep
      rw [hstep]
      exact ⟨rfl, rfl, (draft_of_leads hleads).trans hdrafted⟩
    · rw [hstep]
      exact ⟨rfl, rfl, rfl⟩

end CheatList

end GameTrainer
