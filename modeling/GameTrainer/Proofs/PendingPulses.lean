import Mathlib.Data.List.Induction
import GameTrainer.Proofs.ListRuns
import GameTrainer.Proofs.PulseTrace
import GameTrainer.Proofs.SilentPass

/-!
# Pulses that wait to be released

A motor that was told to run is told to rest by the cheat whose pulse is pending.
So a running motor is well kept as long as some entry of the list has its pulse
pending. Main statements: a frame, and every action that neither takes entries out
nor overwrites one, hands the pending pulses on; and when a running motor is left
without a pending pulse, then an entry that had the pulse pending was taken out or
overwritten since the motor was told anything. Writing the draft over an entry does
this even though a new warm-up is to keep a running pulse.
-/

namespace GameTrainer

/-- The cheat has the pulse of a motor of a port pending. -/
def Cheat.pends (port : UInt32) (motor : Motor) (cheat : Cheat) : Bool :=
  match cheat.effect with
  | .code _ => false
  | .patch patch => patch.rumble.port == port && (patch.rumbleState.pulseEnd motor).isSome

/-- Some entry of the list has the pulse of a motor of a port pending. -/
def CheatList.pends (port : UInt32) (motor : Motor) (list : CheatList) : Bool :=
  list.entries.any (·.pends port motor)

/-- The last strength that events tell a motor of a port is not zero. -/
def Running (port : UInt32) (motor : Motor) (events : List RumbleEvent) : Prop :=
  ∃ strength, (strengthsFor port motor events).getLast? = some strength ∧ strength ≠ 0

/-- Strengths that a motor is told leave its release to whoever is pending afterwards:
where nothing was told, what was pending still is, and a motor that was told to run last
is pending. -/
structure HandsOn (before : Bool) (told : List UInt16) (after : Bool) : Prop where
  /-- Without a word to the motor, what was pending still is. -/
  kept : told = [] → before = true → after = true
  /-- A motor that was told to run last is pending. -/
  running : ∀ strength, told.getLast? = some strength → strength ≠ 0 → after = true

namespace HandsOn

/-- Where nothing is told and nothing changes, nothing is lost. -/
theorem refl (pending : Bool) : HandsOn pending [] pending where
  kept := fun _ h => h
  running := fun _ h => by cases h

/-- A step of a pulse hands the release on. -/
theorem of_pulseStep {steady : Prop} {pulse next : Option Nat} {told : List UInt16}
    (h : RumbleState.PulseStep steady pulse told next) : HandsOn pulse.isSome told next.isSome := by
  cases h with
  | keep => exact .refl _
  | run stop => exact ⟨fun _ _ => rfl, fun _ _ _ => rfl⟩
  | rest =>
    constructor
    · intro hnil
      cases hnil
    · intro strength hlast hne
      cases hlast
      exact absurd rfl hne

/-- One of two that both hand on is pending when it has to be. -/
theorem or {before after later done : Bool} {told next : List UInt16}
    (hfirst : HandsOn before told after) (hsecond : HandsOn later next done) :
    HandsOn (before || later) (told ++ next) (after || done) where
  kept := by
    intro hnil hbefore
    obtain ⟨htold, hnext⟩ := List.append_eq_nil_iff.1 hnil
    rw [Bool.or_eq_true] at hbefore ⊢
    exact hbefore.imp (hfirst.kept htold) (hsecond.kept hnext)
  running := by
    intro strength hlast hne
    rw [Bool.or_eq_true]
    cases hnext : next.getLast? with
    | some found =>
      rw [List.getLast?_append, hnext, Option.some_or] at hlast
      exact Or.inr (hsecond.running strength (hnext.trans hlast) hne)
    | none =>
      rw [List.getLast?_append, hnext, Option.none_or] at hlast
      exact Or.inl (hfirst.running strength hlast hne)

end HandsOn

/-! ## Frames -/

namespace FramePass

variable {port : UInt32} {motor : Motor}

/-- The rumble of a patch hands its pulse on when what it sends goes to its own port and
is a step of the pulse. -/
theorem handsOn_patch {steady : Prop} {cheat : Cheat} {patch : Patch} {state : RumbleState}
    {sent : List RumbleEvent} (heffect : cheat.effect = .patch patch)
    (hport : ∀ event ∈ sent, event.port = patch.rumble.port)
    (hstep : RumbleState.PulseStep steady (patch.rumbleState.pulseEnd motor)
      (strengthsFor patch.rumble.port motor sent) (state.pulseEnd motor)) :
    HandsOn (cheat.pends port motor) (strengthsFor port motor sent)
      (Cheat.pends port motor
        { cheat with effect := .patch { patch with rumbleState := state } }) := by
  rw [Cheat.pends, Cheat.pends, heffect]
  dsimp only
  by_cases hsame : patch.rumble.port = port
  · rw [beq_iff_eq.2 hsame, Bool.true_and, Bool.true_and, ← hsame]
    exact .of_pulseStep hstep
  · rw [beq_eq_false_iff_ne.2 hsame, strengthsFor_eq_nil motor hport hsame]
    exact .refl _

/-- Passing over one entry hands its pulse on. -/
theorem handsOn_applyCheat (port : UInt32) (motor : Motor) (pass : FramePass) (cheat : Cheat)
    (now : Nat) :
    ∃ sent, (pass.applyCheat cheat now).2.events = pass.events ++ sent ∧
      HandsOn (cheat.pends port motor) (strengthsFor port motor sent)
        ((pass.applyCheat cheat now).1.pends port motor) := by
  rw [applyCheat]
  split
  · exact ⟨[], (List.append_nil _).symm, .refl _⟩
  · rename_i patch heffect
    split
    · obtain ⟨hpatch, hevents⟩ := pass.applyPatch_rumbled patch now
      refine ⟨_, hevents, ?_⟩
      dsimp only
      rw [hpatch]
      cases pass.shown? patch with
      | none =>
        rw [Patch.rumbled, ← heffect]
        exact .refl _
      | some current =>
        exact handsOn_patch heffect (fun _ => RumbleState.port_of_mem_evaluate)
          (patch.rumbleState.pulseStep_evaluate patch.rumble current now motor)
    · refine ⟨_, rfl, ?_⟩
      exact handsOn_patch heffect (fun _ => RumbleState.port_of_mem_release)
        (patch.rumbleState.pulseStep_release True patch.rumble.port motor)

/-- Passing over a list hands the pulses of all its entries on. -/
theorem handsOn_applyAll (port : UInt32) (motor : Motor) (pass : FramePass) (now : Nat)
    (cheats : List Cheat) :
    ∃ sent, (pass.applyAll now cheats).2.events = pass.events ++ sent ∧
      HandsOn (cheats.any (·.pends port motor)) (strengthsFor port motor sent)
        ((pass.applyAll now cheats).1.any (·.pends port motor)) := by
  induction cheats generalizing pass with
  | nil => exact ⟨[], (List.append_nil _).symm, .refl _⟩
  | cons cheat rest ih =>
    obtain ⟨first, hfirst, hcheat⟩ := pass.handsOn_applyCheat port motor cheat now
    obtain ⟨later, hlater, hrest⟩ := ih (pass.applyCheat cheat now).2
    refine ⟨first ++ later, ?_, ?_⟩
    · rw [applyAll, hlater, hfirst, List.append_assoc]
    · rw [applyAll, strengthsFor_append, List.any_cons, List.any_cons]
      exact hcheat.or hrest

end FramePass

/-! ## Actions -/

/-- The action can take entries out, or overwrite one. -/
def ListAction.drops : ListAction → Bool
  | remove _ | clear | resize _ _ | commit _ | load _ false => true
  | _ => false

namespace CheatList

variable {port : UInt32} {motor : Motor}

/-- The place of an entry has nothing to do with its pulses. -/
theorem any_renumber (entries : List Cheat) :
    (renumber entries).any (·.pends port motor) = entries.any (·.pends port motor) := by
  rw [renumber, List.mapIdx_eq_zipIdx_map, List.any_map]
  conv => rhs; rw [← List.zipIdx_map_fst 0 entries, List.any_map]
  rfl

/-- A new warm-up keeps the pulses. -/
@[simp] theorem pends_restartRumble (cheat : Cheat) :
    cheat.restartRumble.pends port motor = cheat.pends port motor := by
  obtain ⟨index, description, enabled, effect⟩ := cheat
  cases effect with
  | code text => rfl
  | patch patch => cases motor <;> rfl

/-- An entry that is exchanged for one with the same pulses makes no difference. -/
theorem any_set {entries : List Cheat} {index : Nat} {old new : Cheat}
    (hold : entries[index]? = some old) (hsame : new.pends port motor = old.pends port motor) :
    (entries.set index new).any (·.pends port motor) = entries.any (·.pends port motor) := by
  induction entries generalizing index with
  | nil => cases hold
  | cons first rest ih =>
    cases index with
    | zero =>
      rw [List.getElem?_cons_zero, Option.some.injEq] at hold
      rw [List.set_cons_zero, List.any_cons, List.any_cons, hsame, hold]
    | succ index => rw [List.set_cons_succ, List.any_cons, List.any_cons, ih hold]

theorem pends_withEntries (list : CheatList) (entries : List Cheat) :
    (list.withEntries entries).pends port motor = entries.any (·.pends port motor) :=
  any_renumber entries

/-- An action other than a frame that takes no entry out and overwrites none keeps every
pending pulse. -/
theorem pends_of_leads {list next : CheatList} {action : ListAction}
    (hdrops : action.drops = false) (hframe : ∀ memory now, action ≠ .frame memory now)
    (hleads : list.Leads action next) (hp : list.pends port motor = true) :
    next.pends port motor = true := by
  have hentries : list.entries.any (·.pends port motor) = true := hp
  cases hleads with
  | push cheat => rw [pends, push, List.any_append, hentries, Bool.true_or]
  | @insert index cheat _ =>
    rw [← List.take_append_drop index list.entries, List.any_append, Bool.or_eq_true] at hentries
    rw [pends_withEntries, List.any_append, List.any_cons]
    rcases hentries with hfront | hback
    · rw [hfront, Bool.true_or]
    · rw [hback, Bool.or_true, Bool.or_true]
  | remove | clear | resize | commit | replaced => cases hdrops
  | moveUpFirst | moveDownLast | stage | edit | seen => exact hp
  | moveUp | moveDown =>
    rw [pends_withEntries, (perm_swapNext _ _).any_eq]
    exact hentries
  | @toggle _ cheat hcheat =>
    have hsame : cheat.switched.pends port motor = cheat.pends port motor := by
      rw [Cheat.switched]
      dsimp only
      split
      · rw [pends_restartRumble]
        rfl
      · rfl
    rw [← any_set hcheat hsame] at hentries
    exact hentries
  | addMatches => rw [pends, List.any_append, hentries, Bool.true_or]
  | copied => rw [pends, push, List.any_append, hentries, Bool.true_or]
  | appended => rw [CheatList.append, pends_withEntries, List.any_append, hentries, Bool.true_or]
  | frame memory now => exact absurd rfl (hframe memory now)

/-- An action hands the pulses on, unless it takes entries out or overwrites one. -/
theorem handsOn_after (list : CheatList) {action : ListAction} (hdrops : action.drops = false) :
    HandsOn (list.pends port motor) (strengthsFor port motor (list.sent action))
      ((list.after action).pends port motor) := by
  by_cases hframe : ∃ memory now, action = .frame memory now
  · obtain ⟨memory, now, rfl⟩ := hframe
    obtain ⟨told, htold, hhands⟩ :=
      FramePass.handsOn_applyAll port motor { memory := memory } now list.entries
    rw [List.nil_append] at htold
    rw [CheatList.sent, applyFrame, htold]
    exact hhands
  · have hother : ∀ memory now, action ≠ .frame memory now := fun memory now heq =>
      hframe ⟨memory, now, heq⟩
    have hsent : list.sent action = [] := by
      cases action with
      | frame memory now => exact absurd rfl (hother memory now)
      | _ => rfl
    rw [hsent, strengthsFor_nil]
    refine ⟨fun _ hp => ?_, fun _ hlast => by cases hlast⟩
    exact after_induction (fun next => next.pends port motor = true) action hp
      fun next hleads => pends_of_leads hdrops hother hleads hp

end CheatList

/-! ## Runs -/

namespace ListRun

variable {port : UInt32} {motor : Motor}

/-- Only frames send events. -/
theorem sent_of_drops (list : CheatList) {action : ListAction} (h : action.drops = true) :
    list.sent action = [] := by
  cases action with
  | frame memory now => cases h
  | _ => rfl

/-- A motor that runs after a run of actions on a cheat list has its pulse pending in some
entry, or else an entry that had it pending was taken out or overwritten while the motor
ran, after which none had, and the motor was told nothing since. -/
theorem running_motor_pends_or_was_dropped {actions : List ListAction}
    (h : Running port motor (ofActions actions).events) :
    (ofActions actions).list.pends port motor = true ∨
      ∃ front action back, actions = front ++ action :: back ∧ action.drops = true ∧
        (ofActions front).list.pends port motor = true ∧
        (ofActions (front ++ [action])).list.pends port motor = false ∧
        strengthsFor port motor (ofActions actions).events =
          strengthsFor port motor (ofActions front).events := by
  induction actions using List.reverseRecOn with
  | nil =>
    rw [ofActions_nil] at h
    obtain ⟨_, hlast, _⟩ := h
    cases hlast
  | append_singleton earlier last ih =>
    rw [ofActions_concat, Running, act, strengthsFor_append] at h
    rw [ofActions_concat, act, strengthsFor_append]
    by_cases hnil : strengthsFor port motor ((ofActions earlier).list.sent last) = []
    · -- The motor is told nothing, so it was running before this action.
      rw [hnil, List.append_nil] at h ⊢
      rcases ih h with hp | ⟨front, action, back, rfl, hdrops, hbefore, hafter, htold⟩
      · by_cases hnext : ((ofActions earlier).list.after last).pends port motor = true
        · exact Or.inl hnext
        · have hdrops : last.drops = true := by
            by_contra hkeeps
            rw [Bool.not_eq_true] at hkeeps
            exact hnext ((CheatList.handsOn_after _ hkeeps).kept hnil hp)
          rw [Bool.not_eq_true] at hnext
          refine Or.inr ⟨earlier, last, [], rfl, hdrops, hp, ?_, rfl⟩
          rw [ofActions_concat]
          exact hnext
      · refine Or.inr ⟨front, action, back ++ [last], ?_, hdrops, hbefore, hafter, htold⟩
        rw [List.append_assoc, List.cons_append]
    · -- A frame told the motor something, and frames hand every pulse on.
      have hkeeps : last.drops = false := by
        by_contra hdrops
        rw [Bool.not_eq_false] at hdrops
        rw [sent_of_drops _ hdrops] at hnil
        exact hnil rfl
      obtain ⟨strength, hlast, hne⟩ := h
      rw [List.getLast?_append_of_ne_nil _ hnil] at hlast
      exact Or.inl ((CheatList.handsOn_after _ hkeeps).running strength hlast hne)

/-- An enabled entry that leaves memory alone and lets the strong motor of port 1 run for a
second whenever the first byte of memory changes. -/
def byteWatcher : Cheat where
  enabled := true
  effect := .patch
    { operation := .disabled
      rumble :=
        { trigger := .changes, port := 1, strongStrength := 0x8000, strongDuration := 1000 } }

/-- The entry is pushed and warmed up on a byte that stays zero. -/
def warmedUp : List ListAction :=
  .push byteWatcher :: List.replicate 300 (.frame #[0] 0)

/-- An entry that is taken out in the middle of its pulse leaves the motor running. -/
theorem removed_watcher_was_dropped :
    let actions := warmedUp ++ [.frame #[1] 0, .remove 0]
    Running 1 .strong (ofActions actions).events ∧
      ((ofActions actions).list.pends 1 .strong = true ∨
        ∃ front action back, actions = front ++ action :: back ∧ action.drops = true ∧
          (ofActions front).list.pends 1 .strong = true ∧
          (ofActions (front ++ [action])).list.pends 1 .strong = false ∧
          strengthsFor 1 .strong (ofActions actions).events =
            strengthsFor 1 .strong (ofActions front).events) := by
  intro actions
  have hrunning : Running 1 .strong (ofActions actions).events :=
    ⟨0x8000, by decide +kernel, by decide⟩
  exact ⟨hrunning, running_motor_pends_or_was_dropped hrunning⟩

/-- A draft that was staged before a pulse began and is written back during it takes the
pulse's end with it: the motor runs, and no entry will release it. -/
theorem commit_orphans_running_motor :
    let actions := warmedUp ++ [.stage 0, .frame #[1] 0, .commit 0]
    Running 1 .strong (ofActions actions).events ∧
      (ofActions actions).list.pends 1 .strong = false :=
  ⟨⟨0x8000, by decide +kernel, by decide⟩, by decide +kernel⟩

end ListRun

end GameTrainer
