import Mathlib.Data.List.Induction
import GameTrainer.Proofs.PulseTrace

/-!
# The warm-up of a rumble

A rumble state keeps the value that it saw last and counts the values that it has seen since it
was begun anew. Both can be read off the calls that were made. Main statements: the kept value is
the last that was watched since the last restart, and the count is their number up to the length
of the warm-up; calls that watch no more values than the warm-up lasts only let a motor rest, and
only once; and so no pulse is sent before the warm-up is over, however calls of all kinds come.
-/

namespace GameTrainer

/-! ## Calls since a restart -/

namespace RumbleCall

/-- The value that a call watches, if it evaluates one by a trigger that can fire. -/
def watched? : RumbleCall → Option UInt32
  | evaluate config current _ => if config.trigger = .disabled then none else some current
  | restart | release _ => none

/-- The call begins a new warm-up. -/
def isRestart : RumbleCall → Bool
  | restart => true
  | evaluate .. | release _ => false

end RumbleCall

/-- The values that calls watch, in order. -/
def watchedValues (calls : List RumbleCall) : List UInt32 :=
  calls.filterMap RumbleCall.watched?

/-- The calls behind the last restart, or all of them when there is none. -/
def sinceRestart (calls : List RumbleCall) : List RumbleCall :=
  (calls.reverse.takeWhile fun made => !made.isRestart).reverse

/-- A restart leaves no calls behind it, and any other call comes to the end of them. -/
theorem sinceRestart_concat (calls : List RumbleCall) (made : RumbleCall) :
    sinceRestart (calls ++ [made]) =
      if made.isRestart then [] else sinceRestart calls ++ [made] := by
  rw [sinceRestart, List.reverse_concat, List.takeWhile_cons]
  cases made.isRestart with
  | true => rfl
  | false =>
    simp only [Bool.not_false, if_true, Bool.false_eq_true, if_false]
    rw [List.reverse_cons, sinceRestart]

theorem watchedValues_concat (calls : List RumbleCall) (made : RumbleCall) :
    watchedValues (calls ++ [made]) = watchedValues calls ++ made.watched?.toList := by
  rw [watchedValues, List.filterMap_append, watchedValues]
  cases h : made.watched? with
  | none => rw [List.filterMap_cons_none h, List.filterMap_nil, Option.toList_none]
  | some value => rw [List.filterMap_cons_some h, List.filterMap_nil, Option.toList_some]

theorem watchedValues_cons (made : RumbleCall) (later : List RumbleCall) :
    watchedValues (made :: later) = made.watched?.toList ++ watchedValues later := by
  rw [watchedValues, watchedValues]
  cases h : made.watched? with
  | none => rw [List.filterMap_cons_none h, Option.toList_none, List.nil_append]
  | some value => rw [List.filterMap_cons_some h, Option.toList_some, List.singleton_append]

/-- The strengths that events tell the motors of one kind, on whatever port, in order. -/
def strengthsOf (motor : Motor) (events : List RumbleEvent) : List UInt16 :=
  (events.filter fun event => event.motor = motor).map (·.strength)

theorem strengthsOf_append (motor : Motor) (first second : List RumbleEvent) :
    strengthsOf motor (first ++ second) = strengthsOf motor first ++ strengthsOf motor second := by
  rw [strengthsOf, List.filter_append, List.map_append]
  rfl

/-- Where all events go to one port, its motors are told everything. -/
theorem strengthsOf_eq_strengthsFor {port : UInt32} {events : List RumbleEvent} (motor : Motor)
    (h : ∀ event ∈ events, event.port = port) :
    strengthsOf motor events = strengthsFor port motor events := by
  rw [strengthsOf, strengthsFor]
  congr 1
  apply List.filter_congr
  intro event hevent
  simp [h event hevent]

namespace RumbleState

theorem callAll_concat (state : RumbleState) (calls : List RumbleCall) (last : RumbleCall) :
    (state.callAll (calls ++ [last])).1 = ((state.callAll calls).1.call last).1 := by
  induction calls generalizing state with
  | nil => rfl
  | cons made rest ih => exact ih (state.call made).1

/-! ## What a rumble state remembers -/

/-- An evaluation during the warm-up learns the value, counts it and releases. -/
theorem evaluate_of_isWarmingUp {state : RumbleState} {config : RumbleConfig}
    (htrigger : config.trigger ≠ .disabled) (h : state.isWarmingUp = true) (current : UInt32)
    (now : Nat) :
    state.evaluate config current now =
      RumbleState.release { state with previous := current, warmup := state.warmup + 1 }
        config.port := by
  rw [evaluate, if_neg htrigger]
  exact if_pos h

/-- A call that watches a value keeps it, and counts it while the warm-up lasts. -/
theorem warmup_call_of_watched {made : RumbleCall} {value : UInt32} (state : RumbleState)
    (h : made.watched? = some value) :
    (state.call made).1.previous = value ∧
      (state.call made).1.warmup =
        if state.warmup < warmupLength then state.warmup + 1 else state.warmup := by
  cases made with
  | restart => cases h
  | release port => cases h
  | evaluate config current now =>
    rw [RumbleCall.watched?] at h
    split at h
    · cases h
    · rename_i htrigger
      cases h
      rw [call]
      by_cases hwarm : state.warmup < warmupLength
      · rw [evaluate_of_isWarmingUp htrigger (decide_eq_true hwarm), if_pos hwarm]
        exact ⟨rfl, rfl⟩
      · rw [evaluate, if_neg htrigger, if_neg hwarm]
        dsimp only
        split
        · rename_i hwarming
          exact absurd (of_decide_eq_true hwarming) hwarm
        · exact ⟨rfl, rfl⟩

/-- Any other call but a restart leaves the kept value and the count. -/
theorem warmup_call_of_unwatched {made : RumbleCall} (state : RumbleState)
    (h : made.watched? = none) (hrestart : made.isRestart = false) :
    (state.call made).1.previous = state.previous ∧
      (state.call made).1.warmup = state.warmup := by
  cases made with
  | restart => cases hrestart
  | release port => exact ⟨rfl, rfl⟩
  | evaluate config current now =>
    rw [RumbleCall.watched?] at h
    split at h
    · rename_i htrigger
      rw [call, evaluate, if_pos htrigger]
      exact ⟨rfl, rfl⟩
    · cases h

/-- After any calls, the kept value is the last that was watched since the last restart, and the
count is the number of those values, up to the length of the warm-up. -/
theorem warmup_callAll (calls : List RumbleCall) :
    let state := (({} : RumbleState).callAll calls).1
    let watched := watchedValues (sinceRestart calls)
    state.previous = watched.getLast?.getD 0 ∧ state.warmup = min warmupLength watched.length := by
  -- From the end, since a restart cuts off all calls before it.
  induction calls using List.reverseRecOn with
  | nil => exact ⟨rfl, rfl⟩
  | append_singleton earlier last ih =>
    obtain ⟨hprevious, hcount⟩ := ih
    dsimp only
    rw [callAll_concat, sinceRestart_concat]
    cases hrestart : last.isRestart with
    | true =>
      cases last with
      | restart => exact ⟨rfl, rfl⟩
      | evaluate config current now => cases hrestart
      | release port => cases hrestart
    | false =>
      rw [if_neg Bool.false_ne_true, watchedValues_concat]
      cases hwatched : last.watched? with
      | none =>
        obtain ⟨hkept, hsame⟩ := warmup_call_of_unwatched
          (({} : RumbleState).callAll earlier).1 hwatched hrestart
        rw [hkept, hsame, Option.toList_none, List.append_nil]
        exact ⟨hprevious, hcount⟩
      | some value =>
        obtain ⟨hkept, hnext⟩ := warmup_call_of_watched
          (({} : RumbleState).callAll earlier).1 hwatched
        rw [hkept, hnext, hcount, Option.toList_some, List.getLast?_concat, List.length_append,
          List.length_singleton]
        refine ⟨rfl, ?_⟩
        split <;> omega

/-- A call adds no more to the count than it watches. -/
theorem warmup_call_le (state : RumbleState) (made : RumbleCall) :
    (state.call made).1.warmup ≤ state.warmup + made.watched?.toList.length := by
  cases hwatched : made.watched? with
  | some value =>
    rw [(warmup_call_of_watched state hwatched).2, Option.toList_some, List.length_singleton]
    split <;> omega
  | none =>
    cases hrestart : made.isRestart with
    | true =>
      cases made with
      | restart => exact Nat.zero_le _
      | evaluate config current now => cases hrestart
      | release port => cases hrestart
    | false => exact (warmup_call_of_unwatched state hwatched hrestart).2.le

/-! ## Calls during a warm-up -/

/-- What calls can do to the pulse of a motor without beginning one, and the strengths that they
tell the motor. -/
inductive QuietStep : Option Nat → List UInt16 → Option Nat → Prop where
  /-- The motor is told nothing. -/
  | keep (pulse : Option Nat) : QuietStep pulse [] pulse
  /-- The motor, whose pulse is pending, is told to rest. -/
  | rest (stop : Nat) : QuietStep (some stop) [0] none

/-- Quiet steps add up to a quiet step, since a motor that was let rest stays at rest. -/
theorem QuietStep.trans {first second third : Option Nat} {told later : List UInt16}
    (h : QuietStep first told second) (hlater : QuietStep second later third) :
    QuietStep first (told ++ later) third := by
  cases h with
  | keep => exact hlater
  | rest stop =>
    cases hlater with
    | keep => exact .rest stop

/-- In a quiet step a motor is told to rest once, if its pulse is pending, or nothing. -/
theorem QuietStep.told_eq {before after : Option Nat} {told : List UInt16}
    (h : QuietStep before told after) : told = [] ∨ told = [0] ∧ before.isSome = true := by
  cases h with
  | keep => exact .inl rfl
  | rest stop => exact .inr ⟨rfl, rfl⟩

/-- A release is a quiet step of each pulse. -/
theorem quietStep_release (state : RumbleState) (port : UInt32) (motor : Motor) :
    QuietStep (state.pulseEnd motor) (strengthsOf motor (state.release port).2)
      ((state.release port).1.pulseEnd motor) := by
  rw [strengthsOf_eq_strengthsFor motor fun event hevent => port_of_mem_release hevent,
    strengthsFor_release, pulseEnd_release]
  cases state.pulseEnd motor with
  | none => exact .keep none
  | some stop => exact .rest stop

/-- A call that does not watch more values than the warm-up still lasts is a quiet step. -/
theorem quietStep_call {state : RumbleState} {made : RumbleCall}
    (h : state.warmup + made.watched?.toList.length ≤ warmupLength) (motor : Motor) :
    QuietStep (state.pulseEnd motor) (strengthsOf motor (state.call made).2)
      ((state.call made).1.pulseEnd motor) := by
  cases made with
  | restart =>
    rw [call, pulseEnd_restart]
    exact .keep _
  | release port => exact state.quietStep_release port motor
  | evaluate config current now =>
    rw [call]
    by_cases htrigger : config.trigger = .disabled
    · rw [evaluate, if_pos htrigger]
      exact state.quietStep_release config.port motor
    · have hwatched : (RumbleCall.evaluate config current now).watched? = some current :=
        if_neg htrigger
      rw [hwatched, Option.toList_some, List.length_singleton] at h
      have hwarm : state.isWarmingUp = true := decide_eq_true h
      rw [evaluate_of_isWarmingUp htrigger hwarm]
      have hrelease := quietStep_release
        { state with previous := current, warmup := state.warmup + 1 } config.port motor
      cases motor <;> exact hrelease

/-- Calls that do not watch more values than the warm-up still lasts are a quiet step. -/
theorem quietStep_callAll {state : RumbleState} {calls : List RumbleCall}
    (h : state.warmup + (watchedValues calls).length ≤ warmupLength) (motor : Motor) :
    QuietStep (state.pulseEnd motor) (strengthsOf motor (state.callAll calls).2)
      ((state.callAll calls).1.pulseEnd motor) := by
  induction calls generalizing state with
  | nil => exact .keep _
  | cons made rest ih =>
    rw [watchedValues_cons, List.length_append] at h
    have hcount := state.warmup_call_le made
    rw [callAll, strengthsOf_append]
    exact (quietStep_call (by omega) motor).trans (ih (by omega))

/-- Only an evaluation after the warm-up can tell a motor to run. -/
theorem warmup_of_strength_ne_zero {state : RumbleState} {made : RumbleCall} {event : RumbleEvent}
    (h : event ∈ (state.call made).2) (hrun : event.strength ≠ 0) :
    warmupLength ≤ state.warmup := by
  by_contra hwarm
  have hone : made.watched?.toList.length ≤ 1 := by cases made.watched? <;> simp
  have hbound : state.warmup + made.watched?.toList.length ≤ warmupLength := by omega
  have hquiet := quietStep_call hbound event.motor
  have htold : event.strength ∈ strengthsOf event.motor (state.call made).2 :=
    List.mem_map.2 ⟨event, List.mem_filter.2 ⟨h, decide_eq_true rfl⟩, rfl⟩
  obtain hnone | ⟨hrest, _⟩ := hquiet.told_eq
  · rw [hnone] at htold
    cases htold
  · rw [hrest] at htold
    exact hrun (List.mem_singleton.1 htold)

/-- However a rumble state was called since it was made, it keeps the value that was watched last
since the last restart; an evaluation sends a strength other than zero only when 300 values were
watched since then; and from a restart on, whatever calls come until 300 values are watched, with
further restarts among them or not, all that they tell the motors of a kind is to rest, once, and
only if the pulse was pending at the restart. -/
theorem no_pulse_in_warm_up (calls : List RumbleCall) :
    let state := (({} : RumbleState).callAll calls).1
    let watched := watchedValues (sinceRestart calls)
    state.previous = watched.getLast?.getD 0 ∧
      (∀ config current now, ∀ event ∈ (state.evaluate config current now).2,
        event.strength ≠ 0 → 300 ≤ watched.length) ∧
      ∀ later, (watchedValues later).length ≤ 300 → ∀ motor,
        let told := strengthsOf motor (state.restart.callAll later).2
        told = [] ∨ told = [0] ∧ (state.pulseEnd motor).isSome = true := by
  intro state watched
  obtain ⟨hprevious, hcount⟩ := warmup_callAll calls
  refine ⟨hprevious, fun config current now event hevent hrun => ?_, fun later hlater motor => ?_⟩
  · have hcall : event ∈ (state.call (.evaluate config current now)).2 := hevent
    have hlength := warmup_of_strength_ne_zero hcall hrun
    rw [hcount] at hlength
    exact hlength.trans (Nat.min_le_right _ _)
  · have hbegun : state.restart.warmup + (watchedValues later).length ≤ warmupLength := by
      rw [restart, Nat.zero_add]
      exact hlater
    have hquiet := quietStep_callAll hbegun motor
    rw [pulseEnd_restart] at hquiet
    exact hquiet.told_eq

/-- The evaluation after 300 others starts a pulse. Begun anew, the rumble lets the motor rest in
the first of 300 further evaluations, although the value changes again in the last of them. -/
theorem no_pulse_in_warm_up_of_restart :
    let config : RumbleConfig :=
      { trigger := .changes, port := 1, strongStrength := 0xFFFF, strongDuration := 100 }
    let calls : List RumbleCall := List.replicate 300 (.evaluate config 7 0)
    let state := (({} : RumbleState).callAll calls).1
    let pulsing := (({} : RumbleState).callAll (calls ++ [.evaluate config 1 1000000000])).1
    let later : List RumbleCall :=
      List.replicate 299 (.evaluate config 1 1010000000) ++
        [.release 2, .evaluate config 5 1020000000]
    state.previous = 7 ∧
      (∃ event ∈ (state.evaluate config 1 1000000000).2, event.strength ≠ 0 ∧
        300 ≤ (watchedValues (sinceRestart calls)).length) ∧
      (watchedValues later).length ≤ 300 ∧
      strengthsOf .strong (pulsing.restart.callAll later).2 = [0] ∧
      (pulsing.pulseEnd .strong).isSome = true := by
  intro config calls state pulsing later
  have hevent : (⟨1, .strong, 0xFFFF⟩ : RumbleEvent) ∈ (state.evaluate config 1 1000000000).2 := by
    decide +kernel
  have hlater : (watchedValues later).length ≤ 300 := by decide +kernel
  have hrest : strengthsOf .strong (pulsing.restart.callAll later).2 = [0] := by decide +kernel
  obtain ⟨_, hwarm, _⟩ := no_pulse_in_warm_up calls
  obtain ⟨_, _, hquiet⟩ := no_pulse_in_warm_up (calls ++ [.evaluate config 1 1000000000])
  have hlength := hwarm config 1 1000000000 _ hevent (by decide)
  refine ⟨by decide +kernel, ⟨_, hevent, by decide, hlength⟩, hlater, hrest, ?_⟩
  obtain hnone | ⟨_, hpending⟩ := hquiet later hlater .strong
  · rw [hrest] at hnone
    cases hnone
  · exact hpending

end RumbleState

end GameTrainer
