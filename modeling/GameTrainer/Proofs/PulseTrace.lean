import Mathlib.Data.List.Chain
import GameTrainer.RumblePulse

/-!
# What a motor is told

A rumble state is called again and again: to evaluate the watched value, to begin
a new warm-up, or to release. Whether a motor runs is nowhere kept: it shows only
in the last strength that the motor was told. Main statements: each call tells a
motor at most one strength, and leaves its pulse pending when that strength came
from the configuration; and so, over every run of calls with pulses that have a
strength and a length, a motor was told to run last exactly when its pulse is
pending, and is never told to rest while it rests.
-/

namespace GameTrainer

/-- The strengths that events tell one motor of a port, in order. -/
def strengthsFor (port : UInt32) (motor : Motor) (events : List RumbleEvent) : List UInt16 :=
  (events.filter fun event => event.port = port ∧ event.motor = motor).map (·.strength)

@[simp] theorem strengthsFor_nil (port : UInt32) (motor : Motor) :
    strengthsFor port motor [] = [] := rfl

@[simp] theorem strengthsFor_append (port : UInt32) (motor : Motor)
    (first second : List RumbleEvent) :
    strengthsFor port motor (first ++ second) =
      strengthsFor port motor first ++ strengthsFor port motor second := by
  rw [strengthsFor, List.filter_append, List.map_append]
  rfl

@[simp] theorem strengthsFor_singleton (port : UInt32) (motor : Motor) (event : RumbleEvent) :
    strengthsFor port motor [event] =
      if event.port = port ∧ event.motor = motor then [event.strength] else [] := by
  by_cases h : event.port = port ∧ event.motor = motor <;> simp [strengthsFor, h]

/-- Events that all go to another port tell a motor nothing. -/
theorem strengthsFor_eq_nil {port other : UInt32} {events : List RumbleEvent} (motor : Motor)
    (h : ∀ event ∈ events, event.port = other) (hne : other ≠ port) :
    strengthsFor port motor events = [] := by
  rw [strengthsFor, List.map_eq_nil_iff, List.filter_eq_nil_iff]
  intro event hevent
  simp only [h event hevent, hne, false_and, decide_false]
  decide

namespace RumbleConfig

/-- The strength at which a motor runs. -/
def strength (config : RumbleConfig) : Motor → UInt16
  | .strong => config.strongStrength
  | .weak => config.weakStrength

/-- The length of a motor's pulse in milliseconds. -/
def duration (config : RumbleConfig) : Motor → UInt32
  | .strong => config.strongDuration
  | .weak => config.weakDuration

/-- The pulses of both motors have a strength and a length. -/
def Steady (config : RumbleConfig) : Prop :=
  ∀ motor, config.strength motor ≠ 0 ∧ config.duration motor ≠ 0

end RumbleConfig

namespace RumbleState

/-- When the pending pulse of a motor ends. -/
def pulseEnd (state : RumbleState) : Motor → Option Nat
  | .strong => state.strongEnd
  | .weak => state.weakEnd

/-- What one call can do to the pulse of a motor, and the strengths that it tells the
motor. When pulses are steady, the strength of a pulse is not zero, and only a pending
pulse is released. -/
inductive PulseStep (steady : Prop) : Option Nat → List UInt16 → Option Nat → Prop where
  /-- The motor is told nothing. -/
  | keep (pulse : Option Nat) : PulseStep steady pulse [] pulse
  /-- The motor is told to run until some time. -/
  | run (pulse : Option Nat) (stop : Nat) {strength : UInt16} (h : steady → strength ≠ 0) :
      PulseStep steady pulse [strength] (some stop)
  /-- The motor is told to rest. -/
  | rest {pulse : Option Nat} (h : steady → pulse.isSome = true) :
      PulseStep steady pulse [0] none

/-- The release of one motor tells it to rest if its pulse is pending, and no other. -/
theorem strengthsFor_releaseEvent (port : UInt32) (motor other : Motor) (pulse : Option Nat) :
    strengthsFor port motor (releaseEvent port other pulse) =
      if other = motor then (if pulse.isSome then [0] else []) else [] := by
  cases pulse <;> simp [releaseEvent]

/-- A release tells each motor with a pending pulse to rest. -/
theorem strengthsFor_release (state : RumbleState) (port : UInt32) (motor : Motor) :
    strengthsFor port motor (state.release port).2 =
      if (state.pulseEnd motor).isSome then [0] else [] := by
  rw [release, strengthsFor_append, strengthsFor_releaseEvent, strengthsFor_releaseEvent]
  cases motor with
  | strong =>
    simp only [if_true, reduceCtorEq, if_false, List.append_nil]
    rfl
  | weak =>
    simp only [if_true, reduceCtorEq, if_false, List.nil_append]
    rfl

theorem pulseEnd_release (state : RumbleState) (port : UInt32) (motor : Motor) :
    (state.release port).1.pulseEnd motor = none := by
  cases motor <;> rfl

/-- A new warm-up leaves the pulses. -/
theorem pulseEnd_restart (state : RumbleState) (motor : Motor) :
    state.restart.pulseEnd motor = state.pulseEnd motor := by
  cases motor <;> rfl

/-- A release is a step of each pulse, steady or not. -/
theorem pulseStep_release (steady : Prop) (state : RumbleState) (port : UInt32) (motor : Motor) :
    PulseStep steady (state.pulseEnd motor) (strengthsFor port motor (state.release port).2)
      ((state.release port).1.pulseEnd motor) := by
  rw [strengthsFor_release, pulseEnd_release]
  cases hpulse : state.pulseEnd motor with
  | none => exact .keep none
  | some stop => exact .rest fun _ => rfl

/-- Driving one motor tells nothing to the other. -/
theorem strengthsFor_drive (pulse : Option Nat) (now : Nat) (port : UInt32) (motor other : Motor)
    (strength : UInt16) :
    strengthsFor port motor (drive pulse now port other strength).2 =
      if other = motor then (drive pulse now port other strength).2.map (·.strength) else [] := by
  cases pulse with
  | none => simp [drive]
  | some stop =>
    rw [drive]
    split <;> simp

/-- Driving a motor whose pulse was started now or not is a step of the pulse. -/
theorem pulseStep_drive (config : RumbleConfig) (pulse : Option Nat) (fired : Bool) (now : Nat)
    (motor : Motor) :
    let armed := if fired then some (now + nanoseconds (config.duration motor)) else pulse
    let driven := drive armed now config.port motor (config.strength motor)
    PulseStep config.Steady pulse (driven.2.map (·.strength)) driven.1 := by
  intro armed driven
  have hstrength : config.Steady → config.strength motor ≠ 0 := fun hsteady => (hsteady motor).1
  cases fired with
  | true =>
    have hdriven : driven = drive (some (now + nanoseconds (config.duration motor))) now
        config.port motor (config.strength motor) := rfl
    rw [hdriven, drive]
    split
    · exact .run pulse _ hstrength
    · rename_i hlt
      refine .rest fun hsteady => ?_
      have hzero : nanoseconds (config.duration motor) = 0 := by omega
      exact absurd (nanoseconds_eq_zero_iff.1 hzero) (hsteady motor).2
  | false =>
    have hdriven : driven = drive pulse now config.port motor (config.strength motor) := rfl
    rw [hdriven]
    cases pulse with
    | none => exact .keep none
    | some stop =>
      rw [drive]
      split
      · exact .run _ stop hstrength
      · exact .rest fun _ => rfl

/-- An evaluation is a step of the pulse of each motor of the port. -/
theorem pulseStep_evaluate (state : RumbleState) (config : RumbleConfig) (current : UInt32)
    (now : Nat) (motor : Motor) :
    PulseStep config.Steady (state.pulseEnd motor)
      (strengthsFor config.port motor (state.evaluate config current now).2)
      ((state.evaluate config current now).1.pulseEnd motor) := by
  rw [evaluate]
  split
  · exact state.pulseStep_release config.Steady config.port motor
  · dsimp only
    split
    · have hrelease := RumbleState.pulseStep_release config.Steady
        { state with previous := current, warmup := state.warmup + 1 } config.port motor
      cases motor <;> exact hrelease
    · have hdrive := pulseStep_drive config (state.pulseEnd motor)
        (config.trigger.fires current state.previous config.value) now motor
      rw [strengthsFor_append, strengthsFor_drive, strengthsFor_drive]
      cases motor with
      | strong =>
        simp only [if_true, reduceCtorEq, if_false, List.append_nil]
        exact hdrive
      | weak =>
        simp only [if_true, reduceCtorEq, if_false, List.nil_append]
        exact hdrive

/-- Every event of a release goes to its port. -/
theorem port_of_mem_release {state : RumbleState} {port : UInt32} {event : RumbleEvent}
    (h : event ∈ (state.release port).2) : event.port = port := by
  obtain ⟨previous, warmup, strongEnd, weakEnd⟩ := state
  cases strongEnd <;> cases weakEnd <;> simp_all [release, releaseEvent]
  rcases h with rfl | rfl <;> rfl

theorem port_of_mem_drive {pulse : Option Nat} {now : Nat} {port : UInt32} {motor : Motor}
    {strength : UInt16} {event : RumbleEvent} (h : event ∈ (drive pulse now port motor strength).2) :
    event.port = port := by
  cases pulse with
  | none => cases h
  | some stop =>
    rw [drive] at h
    split at h
    · rw [List.mem_singleton.1 h]
    · rw [List.mem_singleton.1 h]

/-- Every event of an evaluation goes to the port of the configuration. -/
theorem port_of_mem_evaluate {state : RumbleState} {config : RumbleConfig} {current : UInt32}
    {now : Nat} {event : RumbleEvent} (h : event ∈ (state.evaluate config current now).2) :
    event.port = config.port := by
  rw [evaluate] at h
  split at h
  · exact port_of_mem_release h
  · dsimp only at h
    split at h
    · exact port_of_mem_release h
    · rcases List.mem_append.1 h with hstrong | hweak
      · exact port_of_mem_drive hstrong
      · exact port_of_mem_drive hweak

end RumbleState

/-! ## Runs of calls -/

/-- A call of a rumble state. -/
inductive RumbleCall where
  /-- Evaluate the watched value once. -/
  | evaluate (config : RumbleConfig) (current : UInt32) (now : Nat)
  /-- Begin a new warm-up. -/
  | restart
  /-- End the pending pulses now. -/
  | release (port : UInt32)

/-- A call that drives the motors of one port, by steady pulses. -/
def RumbleCall.Drives (port : UInt32) : RumbleCall → Prop
  | evaluate config _ _ => config.port = port ∧ config.Steady
  | restart => True
  | release other => other = port

namespace RumbleState

/-- The state after a call, and the events that the call sends. -/
def call (state : RumbleState) : RumbleCall → RumbleState × List RumbleEvent
  | .evaluate config current now => state.evaluate config current now
  | .restart => (state.restart, [])
  | .release port => state.release port

/-- The state after calls, one after the other, and all events that they send. -/
def callAll (state : RumbleState) : List RumbleCall → RumbleState × List RumbleEvent
  | [] => (state, [])
  | first :: rest =>
    let called := state.call first
    let later := called.1.callAll rest
    (later.1, called.2 ++ later.2)

/-- A call that drives a port is a step of the pulse of each of its motors. -/
theorem pulseStep_call {port : UInt32} {made : RumbleCall} (h : made.Drives port)
    (state : RumbleState) (motor : Motor) :
    PulseStep True (state.pulseEnd motor) (strengthsFor port motor (state.call made).2)
      ((state.call made).1.pulseEnd motor) := by
  cases made with
  | evaluate config current now =>
    obtain ⟨rfl, hsteady⟩ := h
    have hstep := state.pulseStep_evaluate config current now motor
    rwa [eq_true hsteady] at hstep
  | restart =>
    rw [call, pulseEnd_restart]
    exact .keep _
  | release other =>
    subst h
    exact state.pulseStep_release True other motor

theorem port_of_mem_call {port : UInt32} {made : RumbleCall} (h : made.Drives port)
    {state : RumbleState} {event : RumbleEvent} (hevent : event ∈ (state.call made).2) :
    event.port = port := by
  cases made with
  | evaluate config current now => exact (port_of_mem_evaluate hevent).trans h.1
  | restart => cases hevent
  | release other => exact (port_of_mem_release hevent).trans h

/-- What a motor was told is right for its pulse: it was told to run last exactly when the
pulse is pending, it was told to run first, and never to rest twice in a row. -/
structure RightlyTold (strengths : List UInt16) (pulse : Option Nat) : Prop where
  /-- The last strength is not zero exactly when the pulse is pending. -/
  last : (∃ strength, strengths.getLast? = some strength ∧ strength ≠ 0) ↔ pulse.isSome
  /-- The first strength is not zero. -/
  first : ∀ strength, strengths.head? = some strength → strength ≠ 0
  /-- No two strengths in a row are zero. -/
  alternating : strengths.IsChain fun before after => before ≠ 0 ∨ after ≠ 0

/-- A motor that was told nothing and has no pulse pending. -/
theorem rightlyTold_nil : RightlyTold [] none where
  last := by simp
  first := by simp
  alternating := .nil

/-- One more strength is right when it is not the first zero, and not a second one. -/
theorem RightlyTold.concat {strengths : List UInt16} {pulse next : Option Nat} {strength : UInt16}
    (h : RightlyTold strengths pulse) (hnext : strength ≠ 0 ↔ next.isSome)
    (hzero : strength = 0 → pulse.isSome = true) : RightlyTold (strengths ++ [strength]) next where
  last := by
    rw [List.getLast?_concat, ← hnext]
    simp
  first := by
    intro found hfound
    cases strengths with
    | nil =>
      cases hfound
      intro hrest
      obtain ⟨_, hlast, _⟩ := h.last.2 (hzero hrest)
      cases hlast
    | cons head tail => exact h.first found hfound
  alternating := by
    rw [List.isChain_append]
    refine ⟨h.alternating, .singleton strength, ?_⟩
    intro before hbefore after hafter
    cases hafter
    by_cases hrest : strength = 0
    · obtain ⟨last, hlast, hrun⟩ := h.last.2 (hzero hrest)
      rw [Option.mem_def, hlast, Option.some.injEq] at hbefore
      exact Or.inl (hbefore ▸ hrun)
    · exact Or.inr hrest

/-- A step of a steady pulse keeps what the motor was told right. -/
theorem RightlyTold.step {strengths told : List UInt16} {pulse next : Option Nat}
    (h : RightlyTold strengths pulse) (hstep : PulseStep True pulse told next) :
    RightlyTold (strengths ++ told) next := by
  cases hstep with
  | keep =>
    rw [List.append_nil]
    exact h
  | run stop hrun =>
    have hne := hrun trivial
    exact h.concat (by simp [hne]) fun hzero => absurd hzero hne
  | rest hpending => exact h.concat (by simp) fun _ => hpending trivial

/-- Calls that drive a port by steady pulses keep what its motors were told right. -/
theorem RightlyTold.callAll {port : UInt32} {motor : Motor} {calls : List RumbleCall}
    {state : RumbleState} {strengths : List UInt16}
    (h : RightlyTold strengths (state.pulseEnd motor)) (hcalls : ∀ made ∈ calls, made.Drives port) :
    RightlyTold (strengths ++ strengthsFor port motor (state.callAll calls).2)
      ((state.callAll calls).1.pulseEnd motor) := by
  induction calls generalizing state strengths with
  | nil =>
    rw [RumbleState.callAll, strengthsFor_nil, List.append_nil]
    exact h
  | cons made rest ih =>
    have hfirst := h.step (pulseStep_call (hcalls made List.mem_cons_self) state motor)
    have hrest := ih hfirst fun other ho => hcalls other (List.mem_cons_of_mem made ho)
    rw [RumbleState.callAll, strengthsFor_append, ← List.append_assoc]
    exact hrest

theorem port_of_mem_callAll {port : UInt32} {calls : List RumbleCall}
    (hcalls : ∀ made ∈ calls, made.Drives port) {state : RumbleState} {event : RumbleEvent}
    (h : event ∈ (state.callAll calls).2) : event.port = port := by
  induction calls generalizing state with
  | nil => cases h
  | cons made rest ih =>
    rw [callAll] at h
    rcases List.mem_append.1 h with hfirst | hlater
    · exact port_of_mem_call (hcalls made List.mem_cons_self) hfirst
    · exact ih (fun other ho => hcalls other (List.mem_cons_of_mem made ho)) hlater

/-- However a rumble state is evaluated, begun anew and released, with steady pulses on one
port and at whatever times: all that it sends goes to that port, and each of the motors was
told to run last exactly when its pulse is pending, was told to run first, and was never
told to rest twice in a row. -/
theorem motors_told_rightly {port : UInt32} {calls : List RumbleCall}
    (hcalls : ∀ made ∈ calls, made.Drives port) (motor : Motor) :
    let ran := ({} : RumbleState).callAll calls
    let strengths := strengthsFor port motor ran.2
    (∀ event ∈ ran.2, event.port = port) ∧
      ((∃ strength, strengths.getLast? = some strength ∧ strength ≠ 0) ↔
        (ran.1.pulseEnd motor).isSome) ∧
      (∀ strength, strengths.head? = some strength → strength ≠ 0) ∧
      strengths.IsChain fun before after => before ≠ 0 ∨ after ≠ 0 := by
  intro ran strengths
  have hbegin : RightlyTold [] (({} : RumbleState).pulseEnd motor) := by
    cases motor <;> exact rightlyTold_nil
  have htold : RightlyTold strengths (ran.1.pulseEnd motor) := hbegin.callAll hcalls
  exact ⟨fun event hevent => port_of_mem_callAll hcalls hevent, htold.last, htold.first,
    htold.alternating⟩

/-- After the warm-up a pulse of each motor is started and asserted again, the weak one ends
by itself, and the strong one is released when the cheat has been begun anew. -/
theorem motors_told_rightly_after_warmup :
    let config : RumbleConfig :=
      { trigger := .changes, port := 1, strongStrength := 0xFFFF, strongDuration := 100,
        weakStrength := 0x8000, weakDuration := 50 }
    let calls : List RumbleCall := List.replicate 300 (.evaluate config 0 0) ++
      [.evaluate config 1 1000000000, .evaluate config 1 1060000000, .restart,
        .evaluate config 2 1070000000, .release 1]
    let ran := ({} : RumbleState).callAll calls
    (∀ made ∈ calls, made.Drives 1) ∧
      strengthsFor 1 .strong ran.2 = [0xFFFF, 0xFFFF, 0] ∧
      strengthsFor 1 .weak ran.2 = [0x8000, 0] ∧
      ((∃ strength, (strengthsFor 1 .strong ran.2).getLast? = some strength ∧ strength ≠ 0) ↔
        (ran.1.pulseEnd .strong).isSome) ∧
      (strengthsFor 1 .weak ran.2).IsChain fun before after => before ≠ 0 ∨ after ≠ 0 := by
  intro config calls ran
  have hsteady : config.Steady := by
    intro motor
    cases motor <;> decide
  have hcalls : ∀ made ∈ calls, made.Drives 1 := by
    intro made hmade
    rcases List.mem_append.1 hmade with hwarm | hlater
    · rw [List.eq_of_mem_replicate hwarm]
      exact ⟨rfl, hsteady⟩
    · simp only [List.mem_cons, List.not_mem_nil, or_false] at hlater
      rcases hlater with rfl | rfl | rfl | rfl | rfl
      · exact ⟨rfl, hsteady⟩
      · exact ⟨rfl, hsteady⟩
      · trivial
      · exact ⟨rfl, hsteady⟩
      · rfl
  refine ⟨hcalls, by decide +kernel, by decide +kernel, ?_, ?_⟩
  · exact (motors_told_rightly hcalls .strong).2.1
  · exact (motors_told_rightly hcalls .weak).2.2.2

end RumbleState

end GameTrainer
