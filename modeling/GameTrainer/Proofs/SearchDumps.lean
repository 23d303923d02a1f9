import GameTrainer.Proofs.CommandSteps
import GameTrainer.Proofs.KeptFiles
import GameTrainer.Proofs.SearchHistory

/-!
# Searches over dumps

The search command reads its words, then the first dump, then one dump for each step. The first of
all these that is wrong decides what it complains about. When none is, its search holds what the
queries and the dumps decide, and only then something may be saved. Main statements: what words and
dumps come to, or the complaint about them, is what the command goes on with or ends with, and up to
there it leaves all files; and words that are wrong end it before any file is looked at.
-/

namespace GameTrainer

/-! ## The first failure in a list -/

section Reaching

variable {α β ε : Type} {operation : α → Except ε β}

/-- An operation on the elements of a list, one after the other, gets to one of them. -/
def Reaches (operation : α → Except ε β) (list : List α) (element : α) : Prop :=
  ∃ before after made, list = before ++ element :: after ∧ before.mapM operation = .ok made

theorem Reaches.head (element : α) (rest : List α) : Reaches operation (element :: rest) element :=
  ⟨[], rest, [], rfl, rfl⟩

/-- What is reached behind an element is reached from it when the operation goes through there. -/
theorem Reaches.cons {first element : α} {given : β} {rest : List α}
    (hfirst : operation first = .ok given) (h : Reaches operation rest element) :
    Reaches operation (first :: rest) element := by
  obtain ⟨before, after, made, rfl, hmade⟩ := h
  refine ⟨first :: before, after, given :: made, rfl, ?_⟩
  rw [List.mapM_cons, hfirst, ok_bind, hmade]
  rfl

/-- An operation on a list fails as it does on the element that it gets to and fails on. -/
theorem mapM_eq_error_iff {list : List α} {cause : ε} :
    list.mapM operation = .error cause ↔
      ∃ element, Reaches operation list element ∧ operation element = .error cause := by
  constructor
  · intro h
    induction list with
    | nil => cases h
    | cons first rest ih =>
      rw [List.mapM_cons] at h
      cases hfirst : operation first with
      | error failed =>
        rw [hfirst] at h
        cases h
        exact ⟨first, .head first rest, hfirst⟩
      | ok given =>
        rw [hfirst, ok_bind] at h
        cases hrest : rest.mapM operation with
        | error failed =>
          rw [hrest] at h
          cases h
          obtain ⟨element, hreaches, helement⟩ := ih hrest
          exact ⟨element, hreaches.cons hfirst, helement⟩
        | ok made =>
          rw [hrest] at h
          cases h
  · rintro ⟨element, ⟨before, after, made, rfl, hmade⟩, helement⟩
    rw [List.mapM_append, hmade, ok_bind, List.mapM_cons, helement]
    rfl

end Reaching

/-! ## Printing -/

namespace CommandM

/-- Nothing is done after a complaint. -/
theorem throw_bind {m : Type → Type} [Monad m] [LawfulMonad m] {α β : Type}
    (complaint : Complaint) (next : α → CommandM m β) :
    (throw complaint >>= next : CommandM m β) = throw complaint := by
  apply ExceptT.ext
  rw [ExceptT.run_bind, ExceptT.run_throw, pure_bind]
  rfl

variable (printed : Printed) (files : FileTree)

theorem on_printLine (line : String) :
    on printed files (printLine line) =
      ((.ok (), { printed with output := printed.output ++ line ++ "\n" }), files) := rfl

/-- Printing a line for each element of a list only prints. -/
theorem on_printLines {α : Type} (elements : List α) (line : α → String) :
    ∃ told, on printed files (forIn elements PUnit.unit fun element _ => do
        printLine (line element)
        pure (ForInStep.yield PUnit.unit)) = ((.ok (), told), files) := by
  induction elements generalizing printed with
  | nil => exact ⟨printed, rfl⟩
  | cons element rest ih =>
    rw [List.forIn_cons]
    obtain ⟨told, htold⟩ := ih { printed with output := printed.output ++ line element ++ "\n" }
    refine ⟨told, ?_⟩
    rw [on_bind, on_bind, on_printLine]
    exact htold

end CommandM

namespace Search

/-- A step on bytes of another size than the region's is refused. -/
theorem step_of_size_ne {search : Search} {memory : CoreMemory} {current : Bytes} (query : Query)
    (hget : memory.get? search.snapshot.region = some current)
    (hsize : current.size ≠ search.snapshot.size) :
    search.step memory query =
      (.error (.regionSizeChanged search.snapshot.size current.size), search) := by
  rw [step, Snapshot.live, hget]
  dsimp only
  rw [Snapshot.checkSize, if_neg hsize]
  rfl

/-- No search begins on a region without bytes. -/
theorem begin_of_empty {memory : CoreMemory} {region : Region} {content : Bytes} (width : Width)
    (bigEndian : Bool) (hget : memory.get? region = some content) (hempty : content.size = 0) :
    begin memory region width bigEndian = .error (.memoryUnavailable (.empty region)) := by
  rw [begin, Snapshot.take, hget]
  dsimp only
  rw [if_pos (Array.isEmpty_iff_size_eq_zero.2 hempty)]
  rfl

section History

variable {search : Search} {region : Region} {width : Width} {bigEndian : Bool} {initial : Bytes}
  {history : List Narrowing}

/-- A core that exposes some bytes as the region of a search exposes them to it. -/
theorem Follows.get?_single (h : search.Follows region width bigEndian initial history)
    (content : Bytes) :
    (CoreMemory.single region content).get? search.snapshot.region = some content := by
  rw [h.snapshot]
  exact CoreMemory.get?_single ..

/-- A core that exposes the bytes of the last step exposes the region in its old size. -/
theorem Follows.live (h : search.Follows region width bigEndian initial history) :
    search.snapshot.live (.single region (baseline initial history)) =
      .ok (baseline initial history) := by
  rw [h.snapshot]
  exact Snapshot.live_eq_ok (CoreMemory.get?_single ..) rfl

end History

end Search

/-- A trainer begins a search on a region that has bytes. -/
theorem Trainer.exists_of_beginSearch (settings : Settings) {first : Bytes}
    (hne : first.size ≠ 0) :
    ∃ search requests,
      search.Follows settings.region settings.searchWidth settings.searchBigEndian first [] ∧
      ({ settings := settings } : Trainer).beginSearch (.single settings.region first) =
        ⟨.ok search.count, { settings := settings, search := some search }, requests⟩ := by
  obtain ⟨search, hsearch, hfollows⟩ := Search.follows_begin settings.searchWidth
    settings.searchBigEndian (CoreMemory.get?_single settings.region first) hne
  rw [beginSearch, hsearch]
  exact ⟨search, _, hfollows, rfl⟩

/-- A trainer refuses to begin a search on a region without bytes. -/
theorem Trainer.beginSearch_of_empty (settings : Settings) {first : Bytes} (h : first.size = 0) :
    (({ settings := settings } : Trainer).beginSearch (.single settings.region first)).result =
      .error (.memoryUnavailable (.empty settings.region)) := by
  rw [beginSearch, Search.begin_of_empty _ _ (CoreMemory.get?_single settings.region first) h]
  rfl

namespace SearchCommand

open CommandM

/-- The dump of a step with its query, if it can be read and is as long as the first dump. -/
def DumpStep.narrowing (files : FileTree) (size : Nat) (step : DumpStep) :
    Except Complaint Narrowing := do
  let content ← (files.read step.dump).mapError fun fault =>
    ⟨"reading dump " ++ step.dump, some fault.message⟩
  if content.size = size then return ⟨step.query, content⟩
  else .error (.ofFailure (.regionSizeChanged size content.size))

/-- The settings with the items to look for, and the steps, if the words for them are right. -/
def readWords (settings : Settings) (bits : Option Nat) (bigEndian : Bool) (steps : List String) :
    Except Complaint (Settings × List DumpStep) := do
  let chosen ← chooseItems settings bits bigEndian
  let parsed ← steps.mapM DumpStep.parse
  return (chosen, parsed)

/-- The settings, the first dump and the steps, if words and dumps are right. -/
def gathered (files : FileTree) (settings : Settings) (bits : Option Nat) (bigEndian : Bool)
    (frame : String) (steps : List String) :
    Except Complaint (Settings × Bytes × List Narrowing) := do
  let (chosen, parsed) ← readWords settings bits bigEndian steps
  let first ← (files.read frame).mapError fun fault =>
    ⟨"reading dump " ++ frame, some fault.message⟩
  if first.size = 0 then .error (.ofFailure (.memoryUnavailable (.empty chosen.region)))
  else
    let history ← parsed.mapM (DumpStep.narrowing files first.size)
    return (chosen, first, history)

section Narrowing

variable {region : Region} {width : Width} {bigEndian : Bool} {first : Bytes}
  {history : List Narrowing} {trainer : Trainer} {search : Search} {files : FileTree}
  {step : DumpStep}

/-- A step goes through when its dump can be read and is as long as the first one. -/
theorem narrowing_eq_ok_iff {size : Nat} {next : Narrowing} :
    step.narrowing files size = .ok next ↔
      files.read step.dump = .ok next.content ∧ next.query = step.query ∧
        next.content.size = size := by
  rw [DumpStep.narrowing]
  cases files.read step.dump with
  | error fault => simp [bind, Except.bind]
  | ok content =>
    obtain ⟨query, stored⟩ := next
    dsimp only [mapError_ok, bind, Except.bind]
    by_cases hsize : content.size = size
    · rw [if_pos hsize]
      simp only [pure, Except.pure, Except.ok.injEq, Narrowing.mk.injEq]
      constructor
      · rintro ⟨rfl, rfl⟩
        exact ⟨rfl, rfl, hsize⟩
      · rintro ⟨rfl, rfl, _⟩
        exact ⟨rfl, rfl⟩
    · rw [if_neg hsize]
      simp only [reduceCtorEq, Except.ok.injEq, false_iff, not_and]
      rintro rfl _
      exact hsize

/-- Any other step fails on its dump. -/
theorem narrowing_eq_error_iff {size : Nat} {complaint : Complaint} :
    step.narrowing files size = .error complaint ↔
      (∃ fault, files.read step.dump = .error fault ∧
        complaint = ⟨"reading dump " ++ step.dump, some fault.message⟩) ∨
      ∃ content, files.read step.dump = .ok content ∧ content.size ≠ size ∧
        complaint = .ofFailure (.regionSizeChanged size content.size) := by
  rw [DumpStep.narrowing]
  cases files.read step.dump with
  | error fault => simp [bind, Except.bind, eq_comm]
  | ok content =>
    dsimp only [mapError_ok, bind, Except.bind]
    by_cases hsize : content.size = size
    · rw [if_pos hsize]
      simp [pure, Except.pure, hsize]
    · rw [if_neg hsize]
      constructor
      · intro h
        cases h
        exact .inr ⟨content, rfl, hsize, rfl⟩
      · rintro (⟨_, hread, _⟩ | ⟨_, hread, _, rfl⟩)
        · cases hread
        · cases hread
          rfl

/-- A step that fails on its dump ends the narrowing. -/
theorem on_narrow_of_error (printed : Printed) (rest : List DumpStep) (dump : Bytes)
    (hsearch : trainer.search = some search) (hregion : trainer.settings.region = region)
    (h : search.Follows region width bigEndian first history) {complaint : Complaint}
    (hstep : step.narrowing files first.size = .error complaint) :
    on printed files (narrow (step :: rest) trainer dump) =
      ((.error complaint, printed), files) := by
  rw [narrow, on_bind, on_readDump]
  obtain ⟨fault, hread, rfl⟩ | ⟨content, hread, hsize, rfl⟩ := narrowing_eq_error_iff.1 hstep
  · rw [hread]
    rfl
  · have hget := h.get?_single content
    rw [← hregion] at hget
    have hfailed := Search.step_of_size_ne step.query hget (fun heq => hsize (heq.trans h.size))
    obtain ⟨hresult, _⟩ := Trainer.searchStep_spec hsearch
      (.single trainer.settings.region content) step.query
    rw [hfailed] at hresult
    rw [hread]
    dsimp only [mapError_ok]
    rw [on_bind, on_check, hresult, h.size]
    rfl

/-- A step that goes through narrows the search, prints, and leaves the rest of the steps. -/
theorem on_narrow_of_ok (printed : Printed) (rest : List DumpStep) (dump : Bytes)
    (hsearch : trainer.search = some search) (hregion : trainer.settings.region = region)
    (h : search.Follows region width bigEndian first history) {next : Narrowing}
    (hstep : step.narrowing files first.size = .ok next) :
    ∃ told, on printed files (narrow (step :: rest) trainer dump) =
      on told files (narrow rest
        { trainer with search := some (search.narrowed next.content next.query) }
        next.content) := by
  obtain ⟨hread, hquery, hsize⟩ := narrowing_eq_ok_iff.1 hstep
  have hget := h.get?_single next.content
  rw [← hregion] at hget
  have hnarrowed := Search.step_eq_ok step.query hget (hsize.trans h.size.symm)
  obtain ⟨hresult, htrainer⟩ := Trainer.searchStep_spec hsearch
    (.single trainer.settings.region next.content) step.query
  rw [hnarrowed] at hresult htrainer
  rw [narrow, on_bind, on_readDump, hread]
  dsimp only [mapError_ok]
  rw [on_bind, on_check, hresult]
  dsimp only [mapError_ok]
  rw [on_bind, on_tell, htrainer, hquery]
  exact ⟨_, rfl⟩

/-- Narrowing over dumps adds them with their queries to the history of the search, or ends with
the complaint about the first of them that is wrong. -/
theorem on_narrow (files : FileTree) (steps : List DumpStep) (printed : Printed)
    (hsearch : trainer.search = some search) (hregion : trainer.settings.region = region)
    (h : search.Follows region width bigEndian first history) :
    match steps.mapM (DumpStep.narrowing files first.size) with
    | .error complaint => ∃ told,
        on printed files (narrow steps trainer (baseline first history)) =
          ((.error complaint, told), files)
    | .ok later => ∃ told found, found.Follows region width bigEndian first (history ++ later) ∧
        on printed files (narrow steps trainer (baseline first history)) =
          ((.ok ({ trainer with search := some found }, baseline first (history ++ later)), told),
            files) := by
  -- From any search and any history, as each step leaves another search to the next.
  induction steps generalizing printed trainer search history with
  | nil =>
    refine ⟨printed, search, ?_, ?_⟩
    · rw [List.reverse_nil, List.append_nil]
      exact h
    · rw [List.reverse_nil, List.append_nil, ← hsearch]
      rfl
  | cons step rest ih =>
    rw [List.mapM_cons]
    cases hstep : step.narrowing files first.size with
    | error complaint => exact ⟨printed, on_narrow_of_error printed rest _ hsearch hregion h hstep⟩
    | ok next =>
      obtain ⟨told, htold⟩ := on_narrow_of_ok printed rest (baseline first history) hsearch hregion
        h hstep
      obtain ⟨_, _, hsize⟩ := narrowing_eq_ok_iff.1 hstep
      let narrowed : Trainer :=
        { trainer with search := some (search.narrowed next.content next.query) }
      have hsearch : narrowed.search = some (search.narrowed next.content next.query) := rfl
      have hrest := ih told hsearch hregion (h.narrowed next.query hsize)
      rw [baseline_concat] at hrest
      rw [htold, ok_bind]
      cases hlater : rest.mapM (DumpStep.narrowing files first.size) with
      | error complaint =>
        rw [hlater] at hrest
        exact hrest
      | ok later =>
        rw [hlater] at hrest
        dsimp only at hrest ⊢
        rw [List.append_assoc] at hrest
        exact hrest

end Narrowing

/-! ## The command -/

section Command

variable (printed : Printed) (files : FileTree)

/-- A complaint ends a command, and nothing else does. -/
theorem on_liftExcept {α : Type} (outcome : Except Complaint α) :
    on printed files (run.liftExcept outcome) = ((outcome, printed), files) := by
  cases outcome <;> rfl

/-- Matches are printed when the dump is as long as the search's. -/
theorem on_printMatches {search : Search} {memory : CoreMemory} {current : Bytes} (limit : Nat)
    (hlive : search.snapshot.live memory = .ok current) :
    ∃ told, on printed files (printMatches search memory limit) = ((.ok (), told), files) := by
  rw [printMatches, hlive]
  obtain ⟨told, htold⟩ := on_printLines printed files ((search.views current).take limit) line
  rw [on_bind, on_check]
  dsimp only [mapError_ok]
  rw [on_bind, htold]
  dsimp only
  split
  · exact ⟨_, rfl⟩
  · exact ⟨_, rfl⟩

/-- What a search does with its matches in the end. -/
def promotion (trainer : Trainer) (memory : CoreMemory) : Option String → OnTree Unit
  | some path => promoteTo trainer memory path
  | none => pure ()

variable (settings : Settings) (bits : Option Nat) (bigEndian : Bool) (frame : String)
  (steps : List String) (limit : Nat) (promote : Option String)

/-- A search with wrong words or dumps complains and leaves all files. Any other has found what they
decide, and goes on to what is done with the matches. -/
theorem on_run :
    match gathered files settings bits bigEndian frame steps with
    | .error complaint => ∃ told,
        on printed files (run settings bits bigEndian frame steps limit promote) =
          ((.error complaint, told), files)
    | .ok (chosen, first, history) => ∃ told found,
        found.Follows chosen.region chosen.searchWidth chosen.searchBigEndian first history ∧
        on printed files (run settings bits bigEndian frame steps limit promote) =
          on told files (promotion { settings := chosen, search := some found }
            (.single chosen.region (baseline first history)) promote) := by
  rw [run, on_bind, on_liftExcept, gathered, readWords]
  cases chooseItems settings bits bigEndian with
  | error complaint => exact ⟨printed, rfl⟩
  | ok chosen =>
    dsimp only
    rw [ok_bind, on_bind, on_liftExcept]
    cases steps.mapM DumpStep.parse with
    | error complaint => exact ⟨printed, rfl⟩
    | ok parsed =>
      dsimp only
      rw [ok_bind, on_bind, on_readDump]
      cases files.read frame with
      | error fault => exact ⟨printed, rfl⟩
      | ok first =>
        dsimp only [mapError_ok]
        rw [pure_bind, ok_bind, on_bind, on_check]
        dsimp only
        by_cases hempty : first.size = 0
        · rw [if_pos hempty, Trainer.beginSearch_of_empty chosen hempty]
          exact ⟨printed, rfl⟩
        · obtain ⟨search, requests, hsearch, hbegin⟩ :=
            Trainer.exists_of_beginSearch chosen hempty
          rw [if_neg hempty, hbegin]
          dsimp only [mapError_ok]
          rw [on_bind, on_tell]
          dsimp only
          generalize Printed.mk printed.output _ = told
          let trainer : Trainer := { settings := chosen, search := some search }
          have hstarted : trainer.search = some search := rfl
          have hnarrow := on_narrow files parsed told hstarted rfl hsearch
          rw [on_bind]
          cases hhistory : parsed.mapM (DumpStep.narrowing files first.size) with
          | error complaint =>
            rw [hhistory] at hnarrow
            obtain ⟨left, hleft⟩ := hnarrow
            refine ⟨left, ?_⟩
            -- Before any step the bytes to compare with are those of the first dump.
            rw [baseline] at hleft
            rw [hleft]
          | ok history =>
            rw [hhistory] at hnarrow
            obtain ⟨left, found, hfound, hleft⟩ := hnarrow
            rw [List.nil_append] at hfound hleft
            obtain ⟨shown, hshown⟩ := on_printMatches left files limit hfound.live
            refine ⟨shown, found, hfound, ?_⟩
            rw [baseline] at hleft
            rw [hleft]
            dsimp only
            rw [on_bind, hshown]
            cases promote <;> rfl

/-- Matches that are too many are not saved. -/
theorem on_promoteTo_of_error {trainer : Trainer} {memory : CoreMemory} {search : Search}
    {current : Bytes} {failure : Failure} {left : CheatList} (path : String)
    (hsearch : trainer.search = some search) (hlive : search.snapshot.live memory = .ok current)
    (hadd : trainer.cheats.addMatches search current = (.error failure, left)) :
    on printed files (promoteTo trainer memory path) =
      ((.error (.ofFailure failure), printed), files) := by
  rw [promoteTo, Trainer.addMatches_of_live hsearch hlive, hadd, on_bind, on_check]
  rfl

/-- Any others are saved as a list that has them. -/
theorem on_promoteTo_of_ok {trainer : Trainer} {memory : CoreMemory} {search : Search}
    {current : Bytes} {added : Nat} {list : CheatList} {outcome : Except Failure Unit}
    {saved : FileTree} {path : String} (hsearch : trainer.search = some search)
    (hlive : search.snapshot.live memory = .ok current)
    (hadd : trainer.cheats.addMatches search current = (.ok added, list))
    (hsave : (list.save path true : StateM FileTree (Except Failure Unit)) files =
      (outcome, saved)) :
    ∃ told, on printed files (promoteTo trainer memory path) =
      ((outcome.mapError Complaint.ofFailure, told), saved) := by
  rw [promoteTo, Trainer.addMatches_of_live hsearch hlive, hadd]
  dsimp only
  rw [on_bind, on_check, Trainer.result_report]
  dsimp only [mapError_ok]
  rw [on_bind, on_onFiles, Trainer.trainer_report, Trainer.save_apply]
  dsimp only
  rw [hsave, on_bind, on_check, Trainer.result_report]
  cases outcome with
  | error failure => exact ⟨printed, rfl⟩
  | ok value =>
    dsimp only [mapError_ok]
    rw [on_tell]
    exact ⟨_, rfl⟩

end Command

/-- Words that are wrong end a search at once, whatever the files are kept in. -/
theorem run_of_readWords {m : Type → Type} [Monad m] [LawfulMonad m] [FileAccess m]
    {settings : Settings} {bits : Option Nat} {bigEndian : Bool} {steps : List String}
    {complaint : Complaint} (h : readWords settings bits bigEndian steps = .error complaint)
    (frame : String) (limit : Nat) (promote : Option String) :
    (run settings bits bigEndian frame steps limit promote : CommandM m Unit) =
      throw complaint := by
  rw [readWords] at h
  rw [run]
  cases hchosen : chooseItems settings bits bigEndian with
  | error found =>
    rw [hchosen] at h
    cases h
    exact throw_bind complaint _
  | ok chosen =>
    rw [hchosen, ok_bind] at h
    cases hparsed : steps.mapM DumpStep.parse with
    | error found =>
      rw [hparsed] at h
      cases h
      exact (pure_bind chosen _).trans (throw_bind complaint _)
    | ok parsed =>
      rw [hparsed] at h
      cases h

end SearchCommand

end GameTrainer
