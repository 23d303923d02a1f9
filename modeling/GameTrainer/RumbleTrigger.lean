/-!
# Rumble triggers

A cheat may watch the value of its item and ask for a rumble pulse when the
value moves in a certain way. Each way has a numeric code, its place in the list
of triggers.
-/

namespace GameTrainer

/-- The way a watched value has to move, or stand, to ask for a pulse. -/
inductive RumbleTrigger where
  | disabled | changes | unchanged | increase | decrease
  | eqValue | neqValue | ltValue | gtValue
  | increaseByValue | decreaseByValue
  deriving DecidableEq, Repr, Inhabited

namespace RumbleTrigger

/-- Every trigger, at the place of its code. -/
def all : List RumbleTrigger :=
  [disabled, changes, unchanged, increase, decrease, eqValue, neqValue, ltValue, gtValue,
   increaseByValue, decreaseByValue]

/-- The numeric code of a trigger. -/
def code : RumbleTrigger → Nat
  | disabled => 0 | changes => 1 | unchanged => 2 | increase => 3 | decrease => 4
  | eqValue => 5 | neqValue => 6 | ltValue => 7 | gtValue => 8
  | increaseByValue => 9 | decreaseByValue => 10

/-- The trigger with a numeric code. -/
def ofCode? (code : Nat) : Option RumbleTrigger := all[code]?

@[simp] theorem ofCode?_code (trigger : RumbleTrigger) : ofCode? trigger.code = some trigger := by
  cases trigger <;> rfl

/-- The name of a trigger in listings. -/
def name : RumbleTrigger → String
  | disabled => "Disabled" | changes => "Changes" | unchanged => "Unchanged"
  | increase => "Increase" | decrease => "Decrease"
  | eqValue => "EqValue" | neqValue => "NeqValue" | ltValue => "LtValue" | gtValue => "GtValue"
  | increaseByValue => "IncreaseByValue" | decreaseByValue => "DecreaseByValue"

/-- Whether a watched value that was `previous` and is `current` asks for a
pulse, given the value to compare with. Sums and differences wrap at 32 bits. -/
def fires (trigger : RumbleTrigger) (current previous value : UInt32) : Bool :=
  match trigger with
  | disabled => false
  | changes => current != previous
  | unchanged => current == previous
  | increase => previous < current
  | decrease => current < previous
  | eqValue => current == value
  | neqValue => current != value
  | ltValue => current < value
  | gtValue => value < current
  | increaseByValue => current == previous + value
  | decreaseByValue => current == previous - value

end RumbleTrigger

end GameTrainer
