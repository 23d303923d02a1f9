import GameTrainer.RumbleTrigger

/-!
# Rumble pulses

Each cheat drives the two motors of one port. A pulse is asserted anew at every
evaluation until its end time has come, and then released by a single zero.
After a cheat is switched on, its first evaluations only learn the watched value
and send no pulse, since memory may still be being set up. Every operation
returns the state it leaves and the events it sends, the strong motor's first.

Times are nanoseconds from a fixed origin and need not rise; the lengths of pulses
are given in milliseconds.
-/

namespace GameTrainer

/-- One of the two motors of a port. -/
inductive Motor where
  | strong | weak
  deriving DecidableEq, Repr, Inhabited

/-- The name of a motor. -/
def Motor.name : Motor → String
  | strong => "Strong" | weak => "Weak"

/-- An order to a motor: a strength, where zero means rest. -/
structure RumbleEvent where
  /-- The port whose device is meant. -/
  port : UInt32
  /-- The motor of that device. -/
  motor : Motor
  /-- How strongly it is to run. -/
  strength : UInt16
  deriving DecidableEq, Repr

/-- What a cheat watches for, and the pulse that it asks for. -/
structure RumbleConfig where
  /-- How the watched value has to move. -/
  trigger : RumbleTrigger := .disabled
  /-- The value that some triggers compare with. -/
  value : UInt32 := 0
  /-- The port whose motors run. -/
  port : UInt32 := 0
  /-- Strength of the strong motor. -/
  strongStrength : UInt16 := 0
  /-- Length of the strong motor's pulse in milliseconds. -/
  strongDuration : UInt32 := 0
  /-- Strength of the weak motor. -/
  weakStrength : UInt16 := 0
  /-- Length of the weak motor's pulse in milliseconds. -/
  weakDuration : UInt32 := 0
  deriving DecidableEq, Repr, Inhabited

/-- What a cheat remembers of its rumble from one evaluation to the next. It is
never saved. -/
structure RumbleState where
  /-- The watched value at the previous evaluation. -/
  previous : UInt32 := 0
  /-- Evaluations since the cheat was switched on, up to the warm-up length. -/
  warmup : Nat := 0
  /-- When the pending pulse of the strong motor ends. -/
  strongEnd : Option Nat := none
  /-- When the pending pulse of the weak motor ends. -/
  weakEnd : Option Nat := none
  deriving DecidableEq, Repr, Inhabited

/-- A number of milliseconds in nanoseconds. -/
def nanoseconds (milliseconds : UInt32) : Nat := milliseconds.toNat * 1000000

/-- Only no milliseconds are no time. -/
theorem nanoseconds_eq_zero_iff {milliseconds : UInt32} :
    nanoseconds milliseconds = 0 ↔ milliseconds = 0 := by
  rw [nanoseconds, Nat.mul_eq_zero, or_iff_left (by decide), ← UInt32.toNat_inj]
  rfl

namespace RumbleState

/-- The number of evaluations after switching on that send no pulse. -/
def warmupLength : Nat := 300

/-- The cheat is still in its first evaluations. -/
def isWarmingUp (state : RumbleState) : Bool :=
  state.warmup < warmupLength

/-- A pulse of either motor has not been released yet. -/
def isPulsing (state : RumbleState) : Bool :=
  state.strongEnd.isSome || state.weakEnd.isSome

/-- Begin a new warm-up. Pending pulses stay pending, so that they can be
released. -/
def restart (state : RumbleState) : RumbleState :=
  { state with previous := 0, warmup := 0 }

/-- The event that releases a motor, if its pulse is pending. -/
def releaseEvent (port : UInt32) (motor : Motor) (pulseEnd : Option Nat) : List RumbleEvent :=
  if pulseEnd.isSome then [⟨port, motor, 0⟩] else []

/-- End all pending pulses now, with a single zero each. -/
def release (state : RumbleState) (port : UInt32) : RumbleState × List RumbleEvent :=
  ({ state with strongEnd := none, weakEnd := none },
    releaseEvent port .strong state.strongEnd ++ releaseEvent port .weak state.weakEnd)

/-- Drive one motor: assert a pulse that lasts beyond now, release one that does
not, and leave a motor at rest alone. -/
def drive (pulseEnd : Option Nat) (now : Nat) (port : UInt32) (motor : Motor)
    (strength : UInt16) : Option Nat × List RumbleEvent :=
  match pulseEnd with
  | none => (none, [])
  | some stop =>
    if now < stop then (some stop, [⟨port, motor, strength⟩])
    else (none, [⟨port, motor, 0⟩])

/-- Evaluate the watched value once. -/
def evaluate (state : RumbleState) (config : RumbleConfig) (current : UInt32) (now : Nat) :
    RumbleState × List RumbleEvent :=
  if config.trigger = .disabled then state.release config.port
  else
    let fired := config.trigger.fires current state.previous config.value
    let seen := { state with previous := current }
    if seen.isWarmingUp then
      { seen with warmup := seen.warmup + 1 }.release config.port
    else
      let strongEnd :=
        if fired then some (now + nanoseconds config.strongDuration) else seen.strongEnd
      let weakEnd := if fired then some (now + nanoseconds config.weakDuration) else seen.weakEnd
      let strong := drive strongEnd now config.port .strong config.strongStrength
      let weak := drive weakEnd now config.port .weak config.weakStrength
      ({ seen with strongEnd := strong.1, weakEnd := weak.1 }, strong.2 ++ weak.2)

end RumbleState

end GameTrainer
