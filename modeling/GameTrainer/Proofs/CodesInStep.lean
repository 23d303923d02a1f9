import GameTrainer.Proofs.EntryPlaces
import GameTrainer.Proofs.FailedCalls

/-!
# The core keeps step with the list

The enabled codes of a cheat list are held twice: by the list, and by the core that was given
them. A trainer hands them over anew after it has loaded a file or switched an entry, if its
settings say so, and whenever it is told to. Everything else that it does adds entries without
a code, or leaves codes and switches alone. Main statement: when both settings say so, the core
has exactly the enabled codes of the list, at places without gaps, after every run of calls.
-/

namespace GameTrainer

/-- The text that an entry has for the core: its code, when the entry is switched on and the
code is not empty. -/
def Cheat.coreCode? (cheat : Cheat) : Option String :=
  if cheat.enabled then cheat.code?.filter (!·.isEmpty) else none

/-- The codes that a core has to hold for some entries, each switched on, at places that count
up from a first one. -/
def codesFrom (place : Nat) : List Cheat → List (Nat × Bool × String)
  | [] => []
  | ⟨_, _, true, .code text⟩ :: rest =>
    if text = "" then codesFrom place rest else (place, true, text) :: codesFrom (place + 1) rest
  | _ :: rest => codesFrom place rest

/-! ## The codes of a list -/

namespace CheatList

/-- The codes that a core has to hold for a list. -/
def coreEntries (list : CheatList) : List (Nat × Bool × String) :=
  list.coreCodes.mapIdx fun place code => (place, true, code)

/-- An entry with a code takes the next place, and any other entry takes none. -/
theorem codesFrom_cons (place : Nat) (cheat : Cheat) (rest : List Cheat) :
    codesFrom place (cheat :: rest) =
      match cheat.coreCode? with
      | some text => (place, true, text) :: codesFrom (place + 1) rest
      | none => codesFrom place rest := by
  obtain ⟨index, description, enabled, effect⟩ := cheat
  cases effect with
  | patch patch => cases enabled <;> rfl
  | code text =>
    cases enabled with
    | false => rfl
    | true =>
      have hcode : Cheat.coreCode? ⟨index, description, true, .code text⟩ =
          (some text).filter (!·.isEmpty) := rfl
      rw [hcode, Option.filter_some, codesFrom]
      by_cases hempty : text = ""
      · rw [hempty]
        rfl
      · have hisEmpty : text.isEmpty = false := by
          rw [← Bool.not_eq_true, String.isEmpty_iff]
          exact hempty
        rw [if_neg hempty, hisEmpty]
        rfl

/-- Counting the codes of entries one by one is numbering all of them. -/
theorem mapIdx_filterMap_coreCode? (place : Nat) (entries : List Cheat) :
    (entries.filterMap Cheat.coreCode?).mapIdx (fun i code => (place + i, true, code)) =
      codesFrom place entries := by
  induction entries generalizing place with
  | nil => rfl
  | cons cheat rest ih =>
    rw [codesFrom_cons, List.filterMap_cons]
    cases cheat.coreCode? with
    | none => exact ih place
    | some text =>
      have hplaces : (fun i (code : String) => (place + (i + 1), true, code)) =
          fun i code => (place + 1 + i, true, code) := by
        funext i code
        rw [Nat.add_assoc, Nat.add_comm 1 i]
      rw [List.mapIdx_cons, hplaces, ih (place + 1)]
      rfl

theorem coreEntries_eq_codesFrom (list : CheatList) :
    list.coreEntries = codesFrom 0 list.entries := by
  have hnumbered := mapIdx_filterMap_coreCode? 0 list.entries
  simp only [Nat.zero_add] at hnumbered
  exact hnumbered

/-- Entries without a code for the core, added at the end, leave the codes. -/
theorem coreEntries_append {list : CheatList} {more : List Cheat}
    (h : ∀ cheat ∈ more, cheat.coreCode? = none) :
    coreEntries { list with entries := list.entries ++ more } = list.coreEntries := by
  have hmore : more.filterMap Cheat.coreCode? = [] := List.filterMap_eq_nil_iff.2 h
  have hcodes : coreCodes { list with entries := list.entries ++ more } = list.coreCodes := by
    change (list.entries ++ more).filterMap Cheat.coreCode? = _
    rw [List.filterMap_append, hmore, List.append_nil]
    rfl
  rw [coreEntries, hcodes, coreEntries]

/-- Entries with the same codes for the core give it the same. -/
theorem coreEntries_congr {list next : CheatList}
    (h : next.entries.map Cheat.coreCode? = list.entries.map Cheat.coreCode?) :
    next.coreEntries = list.coreEntries := by
  have hcodes : ∀ given : CheatList,
      given.coreCodes = (given.entries.map Cheat.coreCode?).filterMap id := by
    intro given
    rw [List.filterMap_map]
    rfl
  rw [coreEntries, coreEntries, hcodes, hcodes, h]

/-- The entries for matches are patches. -/
theorem coreEntries_addMatches (list : CheatList) (search : Search) (current : Bytes) :
    (list.addMatches search current).2.coreEntries = list.coreEntries := by
  refine (list.spares_addMatches search current).induction
    (·.coreEntries = list.coreEntries) rfl ?_
  intro _ added hadded
  rw [(eq_of_addMatches hadded).2]
  apply coreEntries_append
  intro cheat hcheat
  obtain ⟨place, hplace, rfl⟩ := List.mem_mapIdx.1 hcheat
  rfl

/-- What a user does with a match adds a patch at most. -/
theorem coreEntries_act (list : CheatList) (search : Search) (current : Bytes)
    (action : MatchAction) (index : Nat) :
    (list.act search current action index).2.1.coreEntries = list.coreEntries := by
  refine (list.spares_act search current action index).induction
    (·.1.coreEntries = list.coreEntries) rfl ?_
  rintro _ ⟨acted, left⟩ hacted
  cases leads_of_act hacted with
  | seen => rfl
  | copied =>
    apply coreEntries_append
    intro cheat hcheat
    rw [List.mem_singleton.1 hcheat]
    rfl

end CheatList

/-- A pass leaves the code that an entry has for the core. -/
theorem FramePass.coreCode?_applyCheat (pass : FramePass) (cheat : Cheat) (now : Nat) :
    (pass.applyCheat cheat now).1.coreCode? = cheat.coreCode? := by
  obtain ⟨index, description, enabled, effect⟩ := cheat
  cases effect with
  | code text => rfl
  | patch patch => cases enabled <;> rfl

/-- A frame leaves the codes of the list. -/
theorem Trainer.coreEntries_runFrame (trainer : Trainer) (memory : CoreMemory) (now : Nat) :
    (trainer.runFrame memory now).trainer.cheats.coreEntries = trainer.cheats.coreEntries := by
  rw [runFrame]
  split
  · rfl
  · apply CheatList.coreEntries_congr
    exact FramePass.map_applyAll now (fun pass cheat => pass.coreCode?_applyCheat cheat now) _ _

/-! ## What the core is given -/

namespace CoreCodes

/-- The request to give a core a code. -/
def giving (code : Nat × Bool × String) : Request :=
  .setCoreCode code.1 code.2.1 code.2.2

/-- Codes that a core is given come behind those that it has. -/
theorem receiveAll_giving (core : CoreCodes) (given : List (Nat × Bool × String)) :
    core.receiveAll (given.map giving) = { core with codes := core.codes ++ given } := by
  induction given generalizing core with
  | nil =>
    rw [List.append_nil]
    rfl
  | cons code rest ih =>
    calc core.receiveAll ((code :: rest).map giving)
      _ = CoreCodes.receiveAll { core with codes := core.codes ++ [code] } (rest.map giving) := rfl
      _ = { core with codes := core.codes ++ [code] ++ rest } := ih _
      _ = { core with codes := core.codes ++ code :: rest } := by
        rw [List.append_assoc, List.singleton_append]

/-- Whatever a core has, handing over a list leaves it with the codes of the list. -/
theorem codes_receiveAll_coreRequests (core : CoreCodes) (cheats : CheatList) :
    (core.receiveAll (Trainer.coreRequests cheats)).codes = cheats.coreEntries := by
  have hgiven : cheats.coreCodes.mapIdx (fun place code => Request.setCoreCode place true code) =
      cheats.coreEntries.map giving := by
    rw [CheatList.coreEntries, CheatList.map_mapIdx]
    rfl
  have hsplit : core.receiveAll (Trainer.coreRequests cheats) =
      (CoreCodes.mk (core.resets + 1) []).receiveAll (cheats.coreEntries.map giving) := by
    rw [Trainer.coreRequests, hgiven, receiveAll, List.foldl_append]
    rfl
  rw [hsplit, receiveAll_giving]
  exact List.nil_append _

end CoreCodes

/-- A reply that leaves the settings, and a core that had the codes of the list as it was with
the codes of the list as it is then. -/
structure Reply.KeepsStep {α : Type} (trainer : Trainer) (reply : Reply α) : Prop where
  /-- The settings are left. -/
  settings : reply.trainer.settings = trainer.settings
  /-- The core follows the list. -/
  codes : ∀ core : CoreCodes, core.codes = trainer.cheats.coreEntries →
    (core.receiveAll reply.requests).codes = reply.trainer.cheats.coreEntries

namespace Trainer

variable {α : Type} {trainer : Trainer}

/-- A reply that changes no code of the list, with a note at most, keeps step. -/
theorem keepsStep_of_silent {reply : Reply α}
    (hsettings : reply.trainer.settings = trainer.settings)
    (hcodes : reply.trainer.cheats.coreEntries = trainer.cheats.coreEntries)
    (hrequests : ∀ core : CoreCodes, core.receiveAll reply.requests = core) :
    reply.KeepsStep trainer where
  settings := hsettings
  codes := by
    intro core hcore
    rw [hrequests, hcodes]
    exact hcore

/-- A reply that hands over the list that it leaves keeps step, whatever the list was. -/
theorem keepsStep_of_handed {reply : Reply α} {message : String}
    (hsettings : reply.trainer.settings = trainer.settings)
    (hrequests : reply.requests = say message :: coreRequests reply.trainer.cheats) :
    reply.KeepsStep trainer where
  settings := hsettings
  codes := by
    intro core _
    rw [hrequests]
    exact core.codes_receiveAll_coreRequests reply.trainer.cheats

/-- A trainer with the same settings and the same codes for the core. -/
structure SameCodes (left trainer : Trainer) : Prop where
  /-- It has the same settings. -/
  settings : left.settings = trainer.settings
  /-- Its list has the same codes. -/
  codes : left.cheats.coreEntries = trainer.cheats.coreEntries

/-- An operation that changes no code keeps step, whether it fails or not. -/
theorem keepsStep_report {outcome : Outcome Trainer α} {requests : α → List Request}
    (h : outcome.2.SameCodes trainer)
    (hrequests : ∀ value (core : CoreCodes), core.receiveAll (requests value) = core) :
    (report outcome requests).KeepsStep trainer := by
  obtain ⟨failure | value, left⟩ := outcome
  · exact keepsStep_of_silent h.settings h.codes fun _ => rfl
  · exact keepsStep_of_silent h.settings h.codes (hrequests value)

theorem keepsStep_beginSearch (trainer : Trainer) (memory : CoreMemory) :
    (trainer.beginSearch memory).KeepsStep trainer := by
  refine keepsStep_report ?_ fun _ _ => rfl
  split <;> exact ⟨rfl, rfl⟩

theorem keepsStep_searchStep (trainer : Trainer) (memory : CoreMemory) (query : Query) :
    (trainer.searchStep memory query).KeepsStep trainer := by
  refine keepsStep_report ?_ fun _ _ => rfl
  exact withSearch_induction (·.2.SameCodes trainer) (fun _ => ⟨rfl, rfl⟩) fun _ _ => ⟨rfl, rfl⟩

theorem keepsStep_addMatches (trainer : Trainer) (memory : CoreMemory) :
    (trainer.addMatches memory).KeepsStep trainer := by
  refine keepsStep_report ?_ fun _ _ => rfl
  refine withLiveSearch_induction (·.2.SameCodes trainer) (fun _ => ⟨rfl, rfl⟩) ?_
  intro search current _
  exact ⟨rfl, trainer.cheats.coreEntries_addMatches search current⟩

theorem keepsStep_matchAction (trainer : Trainer) (memory : CoreMemory) (action : MatchAction)
    (index : Nat) : (trainer.matchAction memory action index).KeepsStep trainer := by
  refine keepsStep_report ?_ fun _ _ => rfl
  refine withLiveSearch_induction (·.2.SameCodes trainer) (fun _ => ⟨rfl, rfl⟩) ?_
  intro search current _
  exact ⟨rfl, trainer.cheats.coreEntries_act search current action index⟩

/-- Handing the codes over leaves the core with them, whatever it had. -/
theorem keepsStep_applyCoreCheats (trainer : Trainer) :
    trainer.applyCoreCheats.KeepsStep trainer where
  settings := rfl
  codes := fun core _ => core.codes_receiveAll_coreRequests trainer.cheats

/-- Switching an entry keeps step when the codes are handed over after it. -/
theorem keepsStep_toggle {trainer : Trainer} (h : trainer.settings.applyAfterToggle = true)
    (index : Nat) : (trainer.toggle index).KeepsStep trainer := by
  rw [toggle]
  obtain ⟨_, next, htoggled⟩ | ⟨failure, htoggled⟩ :=
    (trainer.cheats.spares_toggle index).ok_or_error
  · rw [htoggled]
    exact keepsStep_of_handed rfl (congrArg (List.cons _) (if_pos h))
  · rw [htoggled]
    exact keepsStep_of_silent rfl rfl fun _ => rfl

variable {Files : Type} [FileAccess (StateM Files)]

/-- Loading a file keeps step when the codes are handed over after it. -/
theorem keepsStep_load {trainer : Trainer} (h : trainer.settings.applyAfterLoad = true)
    (path : String) (append : Bool) (files : Files) :
    ((trainer.load path append : StateM Files (Reply Nat)) files).1.KeepsStep trainer := by
  rw [load, bind_apply]
  obtain ⟨_, next, hloaded⟩ | ⟨failure, hloaded⟩ :=
    (trainer.cheats.spares_load path append files).ok_or_error
  · rw [hloaded]
    exact keepsStep_of_handed rfl (congrArg (List.cons _) (if_pos h))
  · rw [hloaded]
    exact keepsStep_of_silent rfl rfl fun _ => rfl

theorem keepsStep_save (trainer : Trainer) (path : String) (overwrite : Bool) (files : Files) :
    ((trainer.save path overwrite : StateM Files (Reply Unit)) files).1.KeepsStep trainer := by
  rw [save, bind_apply]
  exact keepsStep_report ⟨rfl, rfl⟩ fun _ _ => rfl

end Trainer

namespace Hosted

variable {Files : Type}

/-- The settings have the codes handed over after each change that a call can make to them,
and the core has the codes of the list. -/
structure InStep (hosted : Hosted Files) : Prop where
  /-- The codes are handed over after a file was loaded. -/
  afterLoad : hosted.trainer.settings.applyAfterLoad = true
  /-- The codes are handed over after an entry was switched. -/
  afterToggle : hosted.trainer.settings.applyAfterToggle = true
  /-- The core has the codes of the list. -/
  codes : hosted.core.codes = hosted.trainer.cheats.coreEntries

/-- A reply that keeps step leaves the core in step with the list. -/
theorem InStep.take {α : Type} {hosted : Hosted Files} (h : hosted.InStep) {reply : Reply α}
    (hreply : reply.KeepsStep hosted.trainer) (files : Files) :
    (hosted.take reply files).2.InStep where
  afterLoad := hreply.settings ▸ h.afterLoad
  afterToggle := hreply.settings ▸ h.afterToggle
  codes := hreply.codes hosted.core h.codes

variable [FileAccess (StateM Files)]

/-- A call leaves the core in step with the list, whether it fails or not. -/
theorem InStep.call {hosted : Hosted Files} (h : hosted.InStep) (memory : CoreMemory)
    (call : TrainerCall) : (hosted.call memory call).2.InStep := by
  cases call with
  | beginSearch => exact h.take (hosted.trainer.keepsStep_beginSearch memory) _
  | endSearch => exact ⟨h.afterLoad, h.afterToggle, h.codes⟩
  | searchStep query => exact h.take (hosted.trainer.keepsStep_searchStep memory query) _
  | addMatches => exact h.take (hosted.trainer.keepsStep_addMatches memory) _
  | matchAction action index =>
    exact h.take (hosted.trainer.keepsStep_matchAction memory action index) _
  | runFrame now =>
    have hsettings : (hosted.trainer.runFrame memory now).trainer.settings =
        hosted.trainer.settings := by
      rw [Trainer.runFrame]
      split <;> rfl
    have hcodes := hosted.trainer.coreEntries_runFrame memory now
    exact ⟨hsettings ▸ h.afterLoad, hsettings ▸ h.afterToggle, h.codes.trans hcodes.symm⟩
  | applyCoreCheats => exact h.take hosted.trainer.keepsStep_applyCoreCheats _
  | toggle index => exact h.take (Trainer.keepsStep_toggle h.afterToggle index) _
  | load path append => exact h.take (Trainer.keepsStep_load h.afterLoad path append _) _
  | save path overwrite => exact h.take (hosted.trainer.keepsStep_save path overwrite _) _
  | loadGame core game => exact h.take (Trainer.keepsStep_load h.afterLoad _ false _) _
  | saveGame core game => exact h.take (hosted.trainer.keepsStep_save _ true _) _

end Hosted

/-- A call of a trainer, with the core's memory and the files as they are then. -/
structure Visit (Files : Type) where
  /-- The memory that the core exposes. -/
  memory : CoreMemory
  /-- The files, whatever happened to them since the last call. -/
  files : Files
  /-- The call. -/
  call : TrainerCall

namespace Hosted

variable {Files : Type} [FileAccess (StateM Files)]

/-- A trainer with its host after some calls, in order. -/
def visitAll (hosted : Hosted Files) (visits : List (Visit Files)) : Hosted Files :=
  visits.foldl (fun hosted visit =>
    (call { hosted with files := visit.files } visit.memory visit.call).2) hosted

/-- Every run of calls leaves the core in step with the list. -/
theorem InStep.visitAll {hosted : Hosted Files} (h : hosted.InStep)
    (visits : List (Visit Files)) : (hosted.visitAll visits).InStep := by
  induction visits generalizing hosted with
  | nil => exact h
  | cons visit rest ih =>
    have hready : InStep { hosted with files := visit.files } :=
      ⟨h.afterLoad, h.afterToggle, h.codes⟩
    exact ih (hready.call visit.memory visit.call)

/-- From an empty list and a core without codes, with settings that have the codes handed over
after a file was loaded and after an entry was switched, and over every run of calls, whichever
of them fail: the core has exactly the codes of the entries that are switched on and have one,
in the order of the list, each switched on and at places without gaps. -/
theorem core_has_enabled_codes (settings : Settings) (files : Files)
    (visits : List (Visit Files)) :
    let eager := { settings with applyAfterLoad := true, applyAfterToggle := true }
    let hosted := visitAll { trainer := { settings := eager }, files := files } visits
    hosted.core.codes = codesFrom 0 hosted.trainer.cheats.entries := by
  intro eager hosted
  have hbegun : InStep { trainer := { settings := eager }, files := files } := ⟨rfl, rfl, rfl⟩
  rw [← CheatList.coreEntries_eq_codesFrom]
  exact (hbegun.visitAll visits).codes

end Hosted

end GameTrainer
