import GameTrainer.Proofs.RumbleWarmUp

/-!
# How long a pulse lasts

After the warm-up each evaluation may fire, and then begins a pulse of both motors anew, each of
its own length. A motor keeps no history but the end of its pulse, while times need not rise. Main
statement: what a motor is told in an evaluation follows from the last evaluation that fired. It
runs as long as no time since then has come to the end of the pulse, is let rest by the first
evaluation whose time has, and is then told nothing until one fires again.
-/

namespace GameTrainer

/-- Evaluations by one configuration, without end. -/
structure Watch where
  /-- How the value is watched. -/
  config : RumbleConfig
  /-- The value that is watched in each evaluation. -/
  value : Nat → UInt32
  /-- The time of each evaluation. Times need not rise. -/
  time : Nat → Nat

namespace Watch

/-- The first evaluations, so many of them. -/
def calls (watch : Watch) (count : Nat) : List RumbleCall :=
  (List.range count).map fun i => .evaluate watch.config (watch.value i) (watch.time i)

/-- The value seen before an evaluation: by the one before, or by the state that it begins with. -/
def before (watch : Watch) (state : RumbleState) : Nat → UInt32
  | 0 => state.previous
  | i + 1 => watch.value i

/-- An evaluation fires. -/
def fires (watch : Watch) (state : RumbleState) (i : Nat) : Bool :=
  watch.config.trigger.fires (watch.value i) (watch.before state i) watch.config.value

/-- When the pulse of a motor ends that an evaluation begins. -/
def stop (watch : Watch) (motor : Motor) (j : Nat) : Nat :=
  watch.time j + nanoseconds (watch.config.duration motor)

/-- The `j`-th evaluation is the last up to the `i`-th that fires. -/
structure LastFires (watch : Watch) (state : RumbleState) (i j : Nat) : Prop where
  /-- It is not behind the `i`-th. -/
  le : j ≤ i
  /-- It fires. -/
  fires : watch.fires state j = true
  /-- Those behind it do not. -/
  later : ∀ k, j < k → k ≤ i → watch.fires state k = false

/-- What a motor is told in the `i`-th evaluation. -/
structure Tells (watch : Watch) (state : RumbleState) (motor : Motor) (i : Nat)
    (told : List UInt16) : Prop where
  /-- It is told nothing as long as no evaluation has fired. -/
  unfired : (∀ j ≤ i, watch.fires state j = false) → told = []
  /-- It is told to run while no time has come to the end of the pulse. -/
  running : ∀ j, watch.LastFires state i j →
    (∀ k, j ≤ k → k ≤ i → watch.time k < watch.stop motor j) →
      told = [watch.config.strength motor]
  /-- It is told to rest by the first time that has. -/
  ending : ∀ j, watch.LastFires state i j →
    (∀ k, j ≤ k → k < i → watch.time k < watch.stop motor j) →
      watch.stop motor j ≤ watch.time i → told = [0]
  /-- It is told nothing once an earlier time has. -/
  ended : ∀ j, watch.LastFires state i j →
    ∀ k, j ≤ k → k < i → watch.stop motor j ≤ watch.time k → told = []

/-- The end of the pulse by which a motor is driven in the `i`-th evaluation. -/
structure Armed (watch : Watch) (state : RumbleState) (motor : Motor) (i : Nat)
    (pulse : Option Nat) : Prop where
  /-- There is none as long as no evaluation has fired. -/
  unfired : (∀ j ≤ i, watch.fires state j = false) → pulse = none
  /-- It is the end of the last pulse while no earlier time has come to it. -/
  pending : ∀ j, watch.LastFires state i j →
    (∀ k, j ≤ k → k < i → watch.time k < watch.stop motor j) →
      pulse = some (watch.stop motor j)
  /-- There is none once an earlier time has. -/
  ended : ∀ j, watch.LastFires state i j →
    ∀ k, j ≤ k → k < i → watch.stop motor j ≤ watch.time k → pulse = none

variable {watch : Watch} {state : RumbleState} {motor : Motor} {i j : Nat}

/-- An evaluation that fires is the last one that does. -/
theorem LastFires.eq_of_fires (h : watch.LastFires state i j) (hi : watch.fires state i = true) :
    j = i := by
  by_contra hne
  have hle := h.le
  have hlater := h.later i (by omega) (Nat.le_refl i)
  rw [hi] at hlater
  cases hlater

/-- An evaluation that does not fire leaves the last one that does. -/
theorem LastFires.of_succ (h : watch.LastFires state (i + 1) j)
    (hi : watch.fires state (i + 1) = false) : watch.LastFires state i j := by
  have hne : j ≠ i + 1 := by
    rintro rfl
    rw [h.fires] at hi
    cases hi
  have hle := h.le
  exact ⟨by omega, h.fires, fun k hjk hki => h.later k hjk (by omega)⟩

/-- An evaluation that fires begins a pulse. -/
theorem armed_of_fires (motor : Motor) (h : watch.fires state i = true) :
    watch.Armed state motor i (some (watch.stop motor i)) where
  unfired := by
    intro hnone
    rw [hnone i (Nat.le_refl i)] at h
    cases h
  pending := by
    intro j hlast _
    rw [hlast.eq_of_fires h]
  ended := by
    intro j hlast k hjk hki _
    have hj := hlast.eq_of_fires h
    omega

/-- Without a pulse, none is pending unless the first evaluation fires. -/
theorem armed_zero (motor : Motor) (h : watch.fires state 0 = false) :
    watch.Armed state motor 0 none where
  unfired := fun _ => rfl
  pending := by
    intro j hlast _
    have hj : j = 0 := Nat.le_zero.1 hlast.le
    rw [← hj, hlast.fires] at h
    cases h
  ended := fun _ _ _ _ _ _ => rfl

/-- What driving a motor leaves of its pulse is what the next evaluation drives it by, unless that
fires. -/
theorem Armed.drive {pulse : Option Nat} (h : watch.Armed state motor i pulse)
    (hnext : watch.fires state (i + 1) = false) (port : UInt32) (strength : UInt16) :
    watch.Armed state motor (i + 1)
      (RumbleState.drive pulse (watch.time i) port motor strength).1 where
  unfired := by
    intro hnone
    rw [h.unfired fun j hj => hnone j (by omega)]
    rfl
  pending := by
    intro j hlast hbefore
    have hold := hlast.of_succ hnext
    have hnow := hbefore i hold.le (Nat.lt_succ_self i)
    rw [h.pending j hold fun k hjk hki => hbefore k hjk (by omega), RumbleState.drive]
    rw [if_pos hnow]
  ended := by
    intro j hlast k hjk hki hover
    have hold := hlast.of_succ hnext
    by_cases hbefore : ∀ m, j ≤ m → m < i → watch.time m < watch.stop motor j
    · -- Then it is this evaluation that has come to the end.
      have hk : k = i := by
        by_contra hne
        have hlt := hbefore k hjk (by omega)
        omega
      rw [hk] at hover
      rw [h.pending j hold hbefore, RumbleState.drive]
      rw [if_neg (Nat.not_lt.2 hover)]
    · simp only [not_forall, Nat.not_lt] at hbefore
      obtain ⟨m, hjm, hmi, hpast⟩ := hbefore
      rw [h.ended j hold m hjm hmi hpast]
      rfl

/-- Driven by the end of its pulse, a motor is told what follows from the last firing. -/
theorem Armed.tells {pulse : Option Nat} (h : watch.Armed state motor i pulse) (port : UInt32) :
    watch.Tells state motor i
      ((RumbleState.drive pulse (watch.time i) port motor (watch.config.strength motor)).2.map
        (·.strength)) where
  unfired := by
    intro hnone
    rw [h.unfired hnone]
    rfl
  running := by
    intro j hlast hall
    have hnow := hall i hlast.le (Nat.le_refl i)
    rw [h.pending j hlast fun k hjk hki => hall k hjk (Nat.le_of_lt hki), RumbleState.drive]
    rw [if_pos hnow]
    rfl
  ending := by
    intro j hlast hbefore hnow
    rw [h.pending j hlast hbefore, RumbleState.drive]
    rw [if_neg (Nat.not_lt.2 hnow)]
    rfl
  ended := by
    intro j hlast k hjk hki hpast
    rw [h.ended j hlast k hjk hki hpast]
    rfl

end Watch

namespace RumbleState

/-- The end of the pulse by which an evaluation drives a motor. -/
def armed (state : RumbleState) (config : RumbleConfig) (current : UInt32) (now : Nat)
    (motor : Motor) : Option Nat :=
  if config.trigger.fires current state.previous config.value then
    some (now + nanoseconds (config.duration motor))
  else state.pulseEnd motor

/-- Driving a motor in an evaluation: the end of its pulse that is left, and what it is told. -/
def driven (state : RumbleState) (config : RumbleConfig) (current : UInt32) (now : Nat)
    (motor : Motor) : Option Nat × List RumbleEvent :=
  drive (state.armed config current now motor) now config.port motor (config.strength motor)

/-- After the warm-up an evaluation drives the strong motor and then the weak one. -/
theorem evaluate_of_warm {state : RumbleState} {config : RumbleConfig}
    (htrigger : config.trigger ≠ .disabled) (hwarm : state.isWarmingUp = false)
    (current : UInt32) (now : Nat) :
    let driven := state.driven config current now
    state.evaluate config current now =
      (⟨current, state.warmup, (driven .strong).1, (driven .weak).1⟩,
        (driven .strong).2 ++ (driven .weak).2) := by
  intro driven
  have hseen : isWarmingUp { state with previous := current } = false := hwarm
  rw [evaluate, if_neg htrigger]
  dsimp only
  rw [hseen, if_neg Bool.false_ne_true]
  rfl

/-- Driving a motor sends what the motor is told to the port. -/
theorem drive_eq_map (pulse : Option Nat) (now : Nat) (port : UInt32) (motor : Motor)
    (strength : UInt16) :
    (drive pulse now port motor strength).2 =
      ((drive pulse now port motor strength).2.map (·.strength)).map (⟨port, motor, ·⟩) := by
  cases pulse with
  | none => rfl
  | some stop =>
    rw [drive]
    split <;> rfl

/-- A state that evaluations after the warm-up have led to. -/
structure Reached (watch : Watch) (first : RumbleState) (i : Nat) (state : RumbleState) :
    Prop where
  /-- The value seen last is that of the last evaluation. -/
  previous : state.previous = watch.before first i
  /-- The warm-up is over. -/
  warm : state.isWarmingUp = false
  /-- The next evaluation drives each motor by the pulse of the last firing. -/
  armed : ∀ motor, watch.Armed first motor i
    (state.armed watch.config (watch.value i) (watch.time i) motor)

variable {watch : Watch} {first state : RumbleState} {i : Nat}

/-- Without a pulse no motor has one. -/
theorem pulseEnd_of_not_isPulsing (h : state.isPulsing = false) (motor : Motor) :
    state.pulseEnd motor = none := by
  rw [isPulsing, Bool.or_eq_false_iff, Option.isSome_eq_false_iff, Option.isSome_eq_false_iff,
    Option.isNone_iff_eq_none, Option.isNone_iff_eq_none] at h
  cases motor with
  | strong => exact h.1
  | weak => exact h.2

/-- An evaluation that fires drives each motor by a new pulse, and any other by the pulse that
is left. -/
theorem armed_eq (hprevious : state.previous = watch.before first i) (motor : Motor) :
    state.armed watch.config (watch.value i) (watch.time i) motor =
      if watch.fires first i then some (watch.stop motor i) else state.pulseEnd motor := by
  rw [armed, hprevious]
  rfl

theorem Reached.zero (hwarm : first.isWarmingUp = false) (hrest : first.isPulsing = false) :
    Reached watch first 0 first where
  previous := rfl
  warm := hwarm
  armed := by
    intro motor
    rw [armed_eq rfl, pulseEnd_of_not_isPulsing hrest]
    cases hfires : watch.fires first 0 with
    | true => exact Watch.armed_of_fires motor hfires
    | false => exact Watch.armed_zero motor hfires

/-- One more evaluation keeps to the last firing. -/
theorem Reached.step (htrigger : watch.config.trigger ≠ .disabled)
    (h : Reached watch first i state) :
    Reached watch first (i + 1)
      (state.evaluate watch.config (watch.value i) (watch.time i)).1 := by
  have hstep := evaluate_of_warm htrigger h.warm (watch.value i) (watch.time i)
  have hprevious : (state.evaluate watch.config (watch.value i) (watch.time i)).1.previous =
      watch.before first (i + 1) := by
    rw [hstep]
    rfl
  refine ⟨hprevious, ?_, fun motor => ?_⟩
  · rw [hstep]
    exact h.warm
  · have hend : (state.evaluate watch.config (watch.value i) (watch.time i)).1.pulseEnd motor =
        (state.driven watch.config (watch.value i) (watch.time i) motor).1 := by
      rw [hstep]
      cases motor <;> rfl
    rw [armed_eq hprevious, hend]
    cases hfires : watch.fires first (i + 1) with
    | true => exact Watch.armed_of_fires motor hfires
    | false => exact (h.armed motor).drive hfires watch.config.port (watch.config.strength motor)

/-- Evaluations from a warm state at rest lead to a state that keeps to the last firing. -/
theorem Reached.callAll (htrigger : watch.config.trigger ≠ .disabled)
    (hwarm : first.isWarmingUp = false) (hrest : first.isPulsing = false) (i : Nat) :
    Reached watch first i (first.callAll (watch.calls i)).1 := by
  induction i with
  | zero => exact .zero hwarm hrest
  | succ i ih =>
    rw [Watch.calls, List.range_succ, List.map_append, List.map_singleton, callAll_concat]
    exact ih.step htrigger

/-- After the warm-up and from rest, evaluate values one after the other, at any times. Then each
evaluation sends all that it does to the port of the configuration, the strong motor's first, and
what a motor is told follows from the last evaluation that fired: nothing if none did, its strength
while no time since has come to the end of the pulse, a single zero by the first that has, and
nothing from then on. -/
theorem pulse_follows_last_firing (watch : Watch) (htrigger : watch.config.trigger ≠ .disabled)
    {state : RumbleState} (hwarm : state.isWarmingUp = false) (hrest : state.isPulsing = false)
    (i : Nat) :
    let reached := (state.callAll (watch.calls i)).1
    ∃ strong weak : List UInt16,
      (reached.evaluate watch.config (watch.value i) (watch.time i)).2 =
        strong.map (⟨watch.config.port, .strong, ·⟩) ++
          weak.map (⟨watch.config.port, .weak, ·⟩) ∧
      watch.Tells state .strong i strong ∧ watch.Tells state .weak i weak := by
  intro reached
  have hreached := Reached.callAll htrigger hwarm hrest i
  refine ⟨(reached.driven watch.config (watch.value i) (watch.time i) .strong).2.map (·.strength),
    (reached.driven watch.config (watch.value i) (watch.time i) .weak).2.map (·.strength),
    ?_, (hreached.armed .strong).tells watch.config.port,
    (hreached.armed .weak).tells watch.config.port⟩
  rw [evaluate_of_warm htrigger hreached.warm]
  dsimp only
  rw [driven, ← drive_eq_map, driven, ← drive_eq_map]

/-- The first evaluation fires, the second is behind the end of the weak motor's pulse, and the
time of the third is before it again. That one still tells the strong motor to run, and tells the
weak motor nothing. -/
theorem pulse_follows_last_firing_of_earlier_time :
    let config : RumbleConfig :=
      { trigger := .eqValue, value := 7, port := 1, strongStrength := 0xFFFF, strongDuration := 100,
        weakStrength := 9, weakDuration := 50 }
    let watch : Watch :=
      ⟨config, fun i => [7, 3, 3].getD i 0, fun i => [1000000000, 1060000000, 1010000000].getD i 0⟩
    let state : RumbleState := { warmup := 300 }
    let reached := (state.callAll (watch.calls 2)).1
    watch.config.trigger ≠ .disabled ∧ state.isWarmingUp = false ∧ state.isPulsing = false ∧
      watch.LastFires state 2 0 ∧ watch.time 2 < watch.stop .weak 0 ∧
      (reached.evaluate watch.config (watch.value 2) (watch.time 2)).2 =
        [⟨1, .strong, 0xFFFF⟩] := by
  intro config watch state reached
  have htrigger : watch.config.trigger ≠ .disabled := by decide
  have hlast : watch.LastFires state 2 0 := by
    refine ⟨by decide, by decide, fun k hk hle => ?_⟩
    obtain rfl | rfl : k = 1 ∨ k = 2 := by omega
    · rfl
    · rfl
  have hwarm : state.isWarmingUp = false := by decide
  have hrest : state.isPulsing = false := by decide
  refine ⟨htrigger, hwarm, hrest, hlast, by decide, ?_⟩
  obtain ⟨strong, weak, hsent, hstrong, hweak⟩ :=
    pulse_follows_last_firing watch htrigger hwarm hrest 2
  have hrun : strong = [0xFFFF] := by
    refine hstrong.running 0 hlast fun k _ hle => ?_
    obtain rfl | rfl | rfl : k = 0 ∨ k = 1 ∨ k = 2 := by omega
    all_goals decide
  have hnothing : weak = [] := hweak.ended 0 hlast 1 (by decide) (by decide) (by decide)
  rw [hrun, hnothing] at hsent
  exact hsent

end RumbleState

end GameTrainer
