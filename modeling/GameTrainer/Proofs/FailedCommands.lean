import GameTrainer.Proofs.AppliedDumps
import GameTrainer.Proofs.SearchDumps

/-!
# Commands that fail

A command can fail on its words, on what it reads, on what it finds, and in the end on what it
writes. What it writes comes last, so all other failures leave the files alone. Main statement: for
each of the causes that a command can stumble over before that, the command ends with the complaint
about it and the files are the ones that were there; a command that fails otherwise could not write,
and leaves every file as it was; and words that are wrong end a search before it looks at any dump.
-/

namespace GameTrainer

/-! ## Searches -/

namespace Search

/-- Searches with one history count the same matches. -/
theorem Follows.count_eq {search other : Search} {region : Region} {width : Width}
    {bigEndian : Bool} {initial : Bytes} {history : List Narrowing}
    (h : search.Follows region width bigEndian initial history)
    (hother : other.Follows region width bigEndian initial history) :
    search.count = other.count := by
  have hsame := (List.perm_ext_iff_of_nodup (Candidates.nodup_toList h.sound.covers)
    (Candidates.nodup_toList hother.sound.covers)).2
    fun address => (h.mem_iff address).trans (hother.mem_iff address).symm
  rw [h.count, hother.count]
  exact hsame.length_eq

end Search

namespace SearchCommand

open CommandM

/-- What can be wrong with the words of a search, with the complaint about it. -/
inductive WordFault (bits : Option Nat) (steps : List String) : Complaint → Prop where
  /-- No items are as wide as it is asked for. -/
  | width {count : Nat} (hbits : bits = some count) (hwidth : Width.ofBits? count = none) :
      WordFault bits steps { message := "unsupported item width " ++ toString count ++ " bits" }
  /-- A step is malformed, and none before it is. -/
  | step {text : String} {complaint : Complaint}
      (hwidth : ∀ count, bits = some count → Width.ofBits? count ≠ none)
      (hreaches : Reaches DumpStep.parse steps text)
      (htext : DumpStep.parse text = .error complaint) : WordFault bits steps complaint

variable {files : FileTree} {settings : Settings} {bits : Option Nat} {bigEndian : Bool}
  {frame : String} {steps : List String} {promote : Option String} {complaint : Complaint}

/-- Items are chosen unless none are as wide as it is asked for. -/
theorem chooseItems_eq_error_iff :
    chooseItems settings bits bigEndian = .error complaint ↔
      ∃ count, bits = some count ∧ Width.ofBits? count = none ∧
        complaint = { message := "unsupported item width " ++ toString count ++ " bits" } := by
  rw [chooseItems.eq_def]
  cases bits with
  | none =>
    constructor
    · intro h
      cases h
    · rintro ⟨_, hbits, _⟩
      cases hbits
  | some count =>
    dsimp only
    cases hwidth : Width.ofBits? count with
    | none =>
      constructor
      · intro h
        cases h
        exact ⟨count, rfl, hwidth, rfl⟩
      · rintro ⟨_, hbits, _, rfl⟩
        cases hbits
        rfl
    | some width =>
      constructor
      · intro h
        cases h
      · rintro ⟨_, hbits, hnone, _⟩
        cases hbits
        rw [hwidth] at hnone
        cases hnone

/-- The words of a search are refused when one of them is wrong. -/
theorem readWords_eq_error_iff :
    readWords settings bits bigEndian steps = .error complaint ↔
      WordFault bits steps complaint := by
  rw [readWords, bind_eq_error_iff]
  constructor
  · rintro (hchosen | ⟨chosen, hchosen, h⟩)
    · obtain ⟨count, hbits, hwidth, rfl⟩ := chooseItems_eq_error_iff.1 hchosen
      exact .width hbits hwidth
    · have hwide : ∀ count, bits = some count → Width.ofBits? count ≠ none := by
        intro count hbits hnone
        rw [chooseItems_eq_error_iff.2 ⟨count, hbits, hnone, rfl⟩] at hchosen
        cases hchosen
      obtain hparsed | ⟨parsed, _, hdone⟩ := bind_eq_error_iff.1 h
      · obtain ⟨text, hreaches, htext⟩ := mapM_eq_error_iff.1 hparsed
        exact .step hwide hreaches htext
      · cases hdone
  · intro h
    cases h with
    | width hbits hwidth =>
      exact .inl (chooseItems_eq_error_iff.2 ⟨_, hbits, hwidth, rfl⟩)
    | step hwide hreaches htext =>
      have hparsed := mapM_eq_error_iff.2 ⟨_, hreaches, htext⟩
      cases hchosen : chooseItems settings bits bigEndian with
      | error found =>
        obtain ⟨count, hbits, hwidth, _⟩ := chooseItems_eq_error_iff.1 hchosen
        exact absurd hwidth (hwide count hbits)
      | ok chosen => exact .inr ⟨chosen, rfl, bind_eq_error_iff.2 (.inl hparsed)⟩

/-- What can be wrong with the words and dumps of a search. -/
inductive InputFault (files : FileTree) (settings : Settings) (bits : Option Nat)
    (bigEndian : Bool) (frame : String) (steps : List String) : Complaint → Prop where
  /-- A word is wrong. -/
  | word {complaint : Complaint} (h : WordFault bits steps complaint) :
      InputFault files settings bits bigEndian frame steps complaint
  /-- The first dump cannot be read. -/
  | frame {chosen : Settings} {parsed : List DumpStep} {fault : FileFault}
      (hwords : readWords settings bits bigEndian steps = .ok (chosen, parsed))
      (hframe : files.read frame = .error fault) :
      InputFault files settings bits bigEndian frame steps
        ⟨"reading dump " ++ frame, some fault.message⟩
  /-- The first dump is empty. -/
  | empty {chosen : Settings} {parsed : List DumpStep} {first : Bytes}
      (hwords : readWords settings bits bigEndian steps = .ok (chosen, parsed))
      (hframe : files.read frame = .ok first) (hempty : first.size = 0) :
      InputFault files settings bits bigEndian frame steps
        (.ofFailure (.memoryUnavailable (.empty chosen.region)))
  /-- The dump of a step cannot be read, and those before it are right. -/
  | dump {chosen : Settings} {parsed : List DumpStep} {first : Bytes} {step : DumpStep}
      {fault : FileFault}
      (hwords : readWords settings bits bigEndian steps = .ok (chosen, parsed))
      (hframe : files.read frame = .ok first) (hne : first.size ≠ 0)
      (hreaches : Reaches (DumpStep.narrowing files first.size) parsed step)
      (hdump : files.read step.dump = .error fault) :
      InputFault files settings bits bigEndian frame steps
        ⟨"reading dump " ++ step.dump, some fault.message⟩
  /-- The dump of a step has another size than the first one, and those before it are right. -/
  | size {chosen : Settings} {parsed : List DumpStep} {first content : Bytes} {step : DumpStep}
      (hwords : readWords settings bits bigEndian steps = .ok (chosen, parsed))
      (hframe : files.read frame = .ok first) (hne : first.size ≠ 0)
      (hreaches : Reaches (DumpStep.narrowing files first.size) parsed step)
      (hdump : files.read step.dump = .ok content) (hsize : content.size ≠ first.size) :
      InputFault files settings bits bigEndian frame steps
        (.ofFailure (.regionSizeChanged first.size content.size))

/-- Words and dumps are refused when one of them is wrong. -/
theorem gathered_eq_error_iff :
    gathered files settings bits bigEndian frame steps = .error complaint ↔
      InputFault files settings bits bigEndian frame steps complaint := by
  constructor
  · intro h
    rw [gathered, bind_eq_error_iff] at h
    obtain hwords | ⟨⟨chosen, parsed⟩, hwords, h⟩ := h
    · exact .word (readWords_eq_error_iff.1 hwords)
    · obtain hframe | ⟨first, hframe, h⟩ := bind_eq_error_iff.1 h
      · obtain ⟨fault, hread, rfl⟩ := mapError_eq_error_iff.1 hframe
        exact .frame hwords hread
      · rw [mapError_eq_ok_iff] at hframe
        by_cases hempty : first.size = 0
        · rw [if_pos hempty] at h
          cases h
          exact .empty hwords hframe hempty
        · rw [if_neg hempty] at h
          obtain hdumps | ⟨history, _, hdone⟩ := bind_eq_error_iff.1 h
          · obtain ⟨step, hreaches, hstep⟩ := mapM_eq_error_iff.1 hdumps
            obtain ⟨fault, hdump, rfl⟩ | ⟨content, hdump, hsize, rfl⟩ :=
              narrowing_eq_error_iff.1 hstep
            · exact .dump hwords hframe hempty hreaches hdump
            · exact .size hwords hframe hempty hreaches hdump hsize
          · cases hdone
  · intro h
    rw [gathered]
    cases h with
    | word hword =>
      rw [readWords_eq_error_iff.2 hword]
      rfl
    | frame hwords hframe =>
      rw [hwords, ok_bind, hframe]
      rfl
    | empty hwords hframe hempty =>
      rw [hwords, ok_bind, hframe]
      dsimp only [mapError_ok]
      rw [ok_bind, if_pos hempty]
    | dump hwords hframe hne hreaches hdump =>
      rw [hwords, ok_bind, hframe]
      dsimp only [mapError_ok]
      rw [ok_bind, if_neg hne, mapM_eq_error_iff.2
        ⟨_, hreaches, narrowing_eq_error_iff.2 (.inl ⟨_, hdump, rfl⟩)⟩]
      rfl
    | size hwords hframe hne hreaches hdump hsize =>
      rw [hwords, ok_bind, hframe]
      dsimp only [mapError_ok]
      rw [ok_bind, if_neg hne, mapM_eq_error_iff.2
        ⟨_, hreaches, narrowing_eq_error_iff.2 (.inr ⟨_, hdump, hsize, rfl⟩)⟩]
      rfl

/-- What can stop a search before anything is saved. -/
inductive Fault (files : FileTree) (settings : Settings) (bits : Option Nat) (bigEndian : Bool)
    (frame : String) (steps : List String) (promote : Option String) : Complaint → Prop where
  /-- A word or a dump is wrong. -/
  | input {complaint : Complaint}
      (h : InputFault files settings bits bigEndian frame steps complaint) :
      Fault files settings bits bigEndian frame steps promote complaint
  /-- The matches are to be saved, and are too many for that. -/
  | tooMany {chosen : Settings} {first : Bytes} {history : List Narrowing} {found : Search}
      {path : String}
      (hinput : gathered files settings bits bigEndian frame steps = .ok (chosen, first, history))
      (hfound : found.Follows chosen.region chosen.searchWidth chosen.searchBigEndian first history)
      (hpromote : promote = some path) (hmany : CheatList.promotionLimit < found.count) :
      Fault files settings bits bigEndian frame steps promote
        (.ofFailure (.tooManyMatches found.count 0 CheatList.promotionLimit))

variable (printed : Printed) (limit : Nat)

/-- More matches than a list may hold are not added. -/
theorem addMatches_of_many {found : Search} (current : Bytes)
    (hmany : CheatList.promotionLimit < found.count) :
    ({} : CheatList).addMatches found current =
      (.error (.tooManyMatches found.count 0 CheatList.promotionLimit), {}) := by
  rw [CheatList.addMatches]
  exact if_pos hmany

/-- Where a search is stopped before anything is saved, it complains and leaves all files. -/
theorem on_run_of_fault
    (h : Fault files settings bits bigEndian frame steps promote complaint) :
    ∃ told, on printed files (run settings bits bigEndian frame steps limit promote) =
      ((.error complaint, told), files) := by
  have hrun := on_run printed files settings bits bigEndian frame steps limit promote
  cases h with
  | input h =>
    rw [gathered_eq_error_iff.2 h] at hrun
    exact hrun
  | tooMany hinput hfound hpromote hmany =>
    rw [hinput] at hrun
    obtain ⟨told, search, hsearch, hrun⟩ := hrun
    -- The command's own search has the same history, and so as many matches.
    rw [hfound.count_eq hsearch] at hmany ⊢
    refine ⟨told, ?_⟩
    rw [hrun, hpromote, promotion]
    exact on_promoteTo_of_error told files _ rfl hsearch.live (addMatches_of_many _ hmany)

/-- A search that complains was stopped before anything was saved, or its matches could not be
saved. -/
theorem fault_or_unsaved_of_on_run {told : Printed} {left : FileTree}
    (h : on printed files (run settings bits bigEndian frame steps limit promote) =
      ((.error complaint, told), left)) :
    Fault files settings bits bigEndian frame steps promote complaint ∧ left = files ∨
      ∃ path failure, ∃ list : CheatList, promote = some path ∧
        (list.save path true : StateM FileTree (Except Failure Unit)) files =
          (.error failure, left) := by
  have hrun := on_run printed files settings bits bigEndian frame steps limit promote
  cases hgathered : gathered files settings bits bigEndian frame steps with
  | error found =>
    rw [hgathered] at hrun
    obtain ⟨_, hrun⟩ := hrun
    rw [hrun] at h
    cases h
    exact .inl ⟨.input (gathered_eq_error_iff.1 hgathered), rfl⟩
  | ok input =>
    obtain ⟨chosen, first, history⟩ := input
    rw [hgathered] at hrun
    obtain ⟨shown, found, hfound, hrun⟩ := hrun
    rw [hrun] at h
    cases promote with
    | none => cases h
    | some path =>
      rw [promotion] at h
      by_cases hmany : CheatList.promotionLimit < found.count
      · rw [on_promoteTo_of_error shown files path rfl hfound.live
          (addMatches_of_many _ hmany)] at h
        cases h
        exact .inl ⟨.tooMany hgathered hfound rfl hmany, rfl⟩
      · have hadd : ∃ list, ({} : CheatList).addMatches found (baseline first history) =
            (.ok found.count, list) := by
          rw [CheatList.addMatches]
          exact ⟨_, if_neg hmany⟩
        obtain ⟨list, hadd⟩ := hadd
        cases hsave : (list.save path true : StateM FileTree (Except Failure Unit)) files with
        | mk outcome saved =>
          let trainer : Trainer := { settings := chosen, search := some found }
          have hsearch : trainer.search = some found := rfl
          obtain ⟨_, hsaved⟩ := on_promoteTo_of_ok shown files hsearch hfound.live hadd hsave
          rw [hsaved] at h
          cases outcome with
          | ok value => cases h
          | error failure =>
            cases h
            exact .inr ⟨path, failure, list, rfl, hsave⟩

end SearchCommand

/-! ## Applying -/

namespace ApplyCommand

/-- What can stop the apply command before it writes a dump. -/
inductive Fault (files : FileTree) (file ram : String) : Complaint → Prop where
  /-- The dump cannot be read. -/
  | dump {fault : FileFault} (hdump : files.read ram = .error fault) :
      Fault files file ram ⟨"reading dump " ++ ram, some fault.message⟩
  /-- The cheat file cannot be read, is no text or announces no cheats. -/
  | cheats {dump : Bytes} {failure : Failure} (hdump : files.read ram = .ok dump)
      (hcheats : CheatList.Unloadable files file failure) :
      Fault files file ram (.ofFailure failure)

variable {files : FileTree} {file ram target : String} {times : List Nat} {complaint : Complaint}

/-- Where the apply command is stopped before it writes, applying comes to the complaint. -/
theorem applied_of_fault (h : Fault files file ram complaint) :
    applied files file ram times target = .error complaint := by
  rw [applied]
  cases h with
  | dump hdump =>
    rw [hdump]
    rfl
  | cheats hdump hcheats =>
    rw [hdump]
    dsimp only [mapError_ok]
    rw [ok_bind, CheatList.load_eq_error_iff.2 hcheats]
    rfl

/-- Applying that comes to a complaint was stopped before it wrote, or could not write. -/
theorem fault_or_unwritten_of_applied
    (h : applied files file ram times target = .error complaint) :
    Fault files file ram complaint ∨
      ∃ content fault, files.write target content = .error fault := by
  rw [applied, bind_eq_error_iff] at h
  obtain hdump | ⟨dump, hdump, h⟩ := h
  · obtain ⟨fault, hread, rfl⟩ := mapError_eq_error_iff.1 hdump
    exact .inl (.dump hread)
  · rw [mapError_eq_ok_iff] at hdump
    obtain hload | ⟨loaded, _, h⟩ := bind_eq_error_iff.1 h
    · obtain ⟨failure, hfailed, rfl⟩ := mapError_eq_error_iff.1 hload
      exact .inl (.cheats hdump (CheatList.load_eq_error_iff.1 hfailed))
    · obtain hwrite | ⟨written, _, hdone⟩ := bind_eq_error_iff.1 h
      · obtain ⟨fault, hfailed, _⟩ := mapError_eq_error_iff.1 hwrite
        exact .inr ⟨_, fault, hfailed⟩
      · cases hdone

end ApplyCommand

/-! ## Listing -/

namespace ListCommand

open CommandM

/-- The list command prints or complains about the cheat file, and leaves all files. -/
theorem on_run (printed : Printed) (files : FileTree) (file : String) (json : Bool) :
    let loaded := ((({} : CheatList).load file false : StateM FileTree _) files).1
    ∃ told, on printed files (run file json) =
      (((loaded.1.map fun _ => ()).mapError Complaint.ofFailure, told), files) := by
  intro loaded
  have hload : (({} : CheatList).load file false : StateM FileTree _) files = (loaded, files) :=
    Prod.ext rfl (by rw [CheatList.load_eq])
  rw [run, on_bind, on_onFiles, hload]
  obtain ⟨failure | count, list⟩ := loaded
  · exact ⟨printed, rfl⟩
  · dsimp only
    rw [on_bind, on_check]
    cases json with
    | true => exact ⟨_, rfl⟩
    | false =>
      dsimp only [mapError_ok]
      rw [if_neg Bool.false_ne_true, on_bind, on_tell]
      dsimp only
      generalize Printed.mk printed.output _ = counted
      obtain ⟨told, htold⟩ := on_printLines counted files list.entries line
      refine ⟨told, ?_⟩
      rw [on_bind, htold]
      rfl

end ListCommand

/-! ## Any command -/

/-- What can stop a command before it writes anything, with the complaint about it. -/
def Command.Fault (settings : Settings) (files : FileTree) : Command → Complaint → Prop
  | .list file _, complaint =>
    ∃ failure, CheatList.Unloadable files file failure ∧ complaint = .ofFailure failure
  | .search bits bigEndian frame steps _ promote, complaint =>
    SearchCommand.Fault files settings bits bigEndian frame steps promote complaint
  | .apply file ram _ _, complaint => ApplyCommand.Fault files file ram complaint

/-- A command cannot write what it has to: the matches of a search, or a dump. -/
def Command.Unwritable (files : FileTree) : Command → Prop
  | .list .. => False
  | .search _ _ _ _ _ promote => ∃ path failure, ∃ list : CheatList, promote = some path ∧
    ((list.save path true : StateM FileTree (Except Failure Unit)) files).1 = .error failure
  | .apply _ ram _ output => ∃ content fault, files.write (output.getD ram) content = .error fault

namespace Command

open CommandM

variable {settings : Settings} {clock : Nat → Nat} {files : FileTree} {command : Command}
  {complaint : Complaint}

/-- Where a command is stopped before it writes anything, it complains and leaves all files. -/
theorem on_run_of_fault (printed : Printed) (h : command.Fault settings files complaint) :
    ∃ told, on printed files (command.run settings clock) =
      ((.error complaint, told), files) := by
  cases command with
  | list file json =>
    obtain ⟨failure, hcheats, rfl⟩ := h
    obtain ⟨told, htold⟩ := ListCommand.on_run printed files file json
    rw [CheatList.load_eq_error_iff.2 hcheats] at htold
    exact ⟨told, htold⟩
  | search bits bigEndian frame steps limit promote =>
    exact SearchCommand.on_run_of_fault printed limit h
  | apply file ram frames output =>
    refine ⟨printed, ?_⟩
    rw [run, ApplyCommand.on_run, ApplyCommand.applied_of_fault h]

/-- A command that complains was stopped before it wrote anything, or could not write; every file
is left as it was. -/
theorem fault_or_unwritable_of_on_run {printed told : Printed} {left : FileTree}
    (h : on printed files (command.run settings clock) = ((.error complaint, told), left)) :
    (command.Fault settings files complaint ∨ command.Unwritable files) ∧ files.SameFiles left := by
  cases command with
  | list file json =>
    obtain ⟨_, htold⟩ := ListCommand.on_run printed files file json
    rw [run, htold] at h
    cases hload : ((({} : CheatList).load file false : StateM FileTree _) files).1.1 with
    | ok count =>
      rw [hload] at h
      cases h
    | error failure =>
      rw [hload] at h
      cases h
      exact ⟨.inl ⟨failure, CheatList.load_eq_error_iff.1 hload, rfl⟩, .refl files⟩
  | search bits bigEndian frame steps limit promote =>
    obtain ⟨hfault, rfl⟩ | ⟨path, failure, list, hpromote, hsave⟩ :=
      SearchCommand.fault_or_unsaved_of_on_run printed limit h
    · exact ⟨.inl hfault, .refl _⟩
    · refine ⟨.inr ⟨path, failure, list, hpromote, by rw [hsave]⟩, ?_⟩
      obtain ⟨_, _, hsame⟩ | ⟨hok, _⟩ := CheatList.save_files hsave
      · exact hsame
      · cases hok
  | apply file ram frames output =>
    rw [run, ApplyCommand.on_run] at h
    cases happlied : ApplyCommand.applied files file ram ((List.range frames).map clock)
        (output.getD ram) with
    | ok done =>
      rw [happlied] at h
      cases h
    | error found =>
      rw [happlied] at h
      cases h
      exact ⟨ApplyCommand.fault_or_unwritten_of_applied happlied, .refl _⟩

end Command

/-- A command that is stopped by its words, by what it reads or by what it finds ends with the code
one and the complaint about it, and the files are the ones that were there. A command that ends
otherwise than well was stopped so, or could not write; and no file has come, gone or changed.
Words that are wrong end a search before any dump is read: then it is nothing but the complaint,
whatever files are kept in. -/
theorem failed_command_keeps_files (settings : Settings) (clock : Nat → Nat) (command : Command)
    (files : FileTree) :
    let ended := (command.execute settings clock : StateM FileTree Ending) files
    (∀ complaint, command.Fault settings files complaint →
      ended.1.code = 1 ∧ (∃ told, ended.1.printed.progress = told ++ complaint.report) ∧
        ended.2 = files) ∧
    (ended.1.code ≠ 0 →
      ((∃ complaint, command.Fault settings files complaint) ∨ command.Unwritable files) ∧
        files.SameFiles ended.2) ∧
    ∀ bits bigEndian frame steps limit promote complaint,
      command = .search bits bigEndian frame steps limit promote →
      SearchCommand.WordFault bits steps complaint →
      ∀ {m : Type → Type} [Monad m] [LawfulMonad m] [FileAccess m],
        (command.run settings clock : CommandM m Unit) = throw complaint := by
  intro ended
  have hended : ended = (Ending.ofResult (CommandM.on {} files (command.run settings clock)).1,
      (CommandM.on {} files (command.run settings clock)).2) :=
    command.execute_eq settings clock files
  refine ⟨fun complaint hfault => ?_, fun hcode => ?_, ?_⟩
  · obtain ⟨told, htold⟩ := Command.on_run_of_fault {} hfault
    rw [hended, htold]
    exact ⟨rfl, ⟨told.progress, rfl⟩, rfl⟩
  · rw [hended] at hcode ⊢
    cases hrun : CommandM.on {} files (command.run settings clock) with
    | mk result left =>
      obtain ⟨outcome, told⟩ := result
      rw [hrun] at hcode
      cases outcome with
      | ok value => exact absurd rfl hcode
      | error complaint =>
        obtain ⟨hcause, hsame⟩ := Command.fault_or_unwritable_of_on_run hrun
        exact ⟨hcause.imp (fun hfault => ⟨complaint, hfault⟩) id, hsame⟩
  · intro bits bigEndian frame steps limit promote complaint hcommand hword m _ _ _
    rw [hcommand]
    exact SearchCommand.run_of_readWords (SearchCommand.readWords_eq_error_iff.2 hword) frame limit
      promote

/-- A dump of another size behind one that goes through, a malformed step behind a right one, and a
cheat file that announces no cheats. -/
theorem failed_search_and_apply_keep_files :
    let files : FileTree :=
      { nodes := [(["a"], .file #[1, 2]), (["b"], .file #[1]), (["list"], .file (encodeText ""))] }
    let ended (command : Command) := (command.execute {} id : StateM FileTree Ending) files
    let search (steps : List String) : Command := .search none false "a" steps 50 (some "out")
    ((ended (search ["lt:a", "lt:b"])).1.code = 1 ∧
        (ended (search ["lt:a", "lt:b"])).2 = files) ∧
      ((ended (search ["lt:a", "lt"])).1.code = 1 ∧ (ended (search ["lt:a", "lt"])).2 = files) ∧
      (ended (.apply "list" "a" 1 none)).1.code = 1 ∧
      (ended (.apply "list" "a" 1 none)).2 = files := by
  intro files ended search
  have hsize : SearchCommand.Fault files {} none false "a" ["lt:a", "lt:b"] (some "out")
      (.ofFailure (.regionSizeChanged 2 1)) := by
    have hwords : SearchCommand.readWords {} none false ["lt:a", "lt:b"] =
        .ok ({}, [⟨.less, "a"⟩, ⟨.less, "b"⟩]) := by decide +kernel
    have hframe : files.read "a" = .ok #[1, 2] := rfl
    have hdump : files.read "b" = .ok #[1] := rfl
    have hright : SearchCommand.DumpStep.narrowing files 2 ⟨.less, "a"⟩ = .ok ⟨.less, #[1, 2]⟩ :=
      SearchCommand.narrowing_eq_ok_iff.2 ⟨hframe, rfl, rfl⟩
    have hinput := SearchCommand.InputFault.size hwords hframe (by decide)
      (.cons hright (.head _ _)) hdump (by decide)
    exact .input hinput
  have hstep : SearchCommand.Fault files {} none false "a" ["lt:a", "lt"] (some "out")
      { message := "search step 'lt' is not QUERY:DUMP" } := by
    have hright : SearchCommand.DumpStep.parse "lt:a" = .ok ⟨.less, "a"⟩ := by decide +kernel
    have hwrong : SearchCommand.DumpStep.parse "lt" =
        .error { message := "search step 'lt' is not QUERY:DUMP" } := by decide +kernel
    exact .input (.word (.step (fun _ hbits => nomatch hbits) (.cons hright (.head _ _)) hwrong))
  have hcheats : ApplyCommand.Fault files "list" "a" (.ofFailure .noCheats) := by
    have hread : files.read "list" = .ok (encodeText "") := rfl
    have hparse : Document.parse "" = {} := rfl
    have hcount : (Document.parse "").get? CheatRecord.countKey = none := by
      rw [hparse, Document.get?, Std.HashMap.getElem?_empty]
      rfl
    exact .cheats rfl (.uncounted hread hcount)
  obtain ⟨hcode, _, hkept⟩ :=
    (failed_command_keeps_files {} id (search ["lt:a", "lt:b"]) files).1 _ hsize
  obtain ⟨hstepCode, _, hstepKept⟩ :=
    (failed_command_keeps_files {} id (search ["lt:a", "lt"]) files).1 _ hstep
  obtain ⟨happlyCode, _, happlyKept⟩ :=
    (failed_command_keeps_files {} id (.apply "list" "a" 1 none) files).1 _ hcheats
  exact ⟨⟨hcode, hkept⟩, ⟨hstepCode, hstepKept⟩, happlyCode, happlyKept⟩

end GameTrainer
