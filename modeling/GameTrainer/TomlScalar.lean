import GameTrainer.TextNumeral
import GameTrainer.TextSplit

/-!
# TOML scalars

Which words of a TOML text are numbers, dates and times. They are only told apart
from other words, since no setting is one. Numbers may have an underscore between
two digits; a decimal one has no leading zero, and a whole one has to fit 64 bits
with a sign.
-/

namespace GameTrainer.Toml

/-- A digit from zero to nine. -/
def isDigit (c : Char) : Bool := '0' ≤ c && c ≤ '9'

/-- A word without the sign in front of it. -/
def unsigned : List Char → List Char
  | '+' :: rest => rest
  | '-' :: rest => rest
  | word => word

/-- Digits of a kind, with single underscores between them. -/
def isDigitRun (digit : Char → Bool) (word : List Char) : Bool :=
  (Text.splitAll '_' word).all fun run => !run.isEmpty && run.all digit

/-- A run of decimal digits without a leading zero. -/
def isDecimal (word : List Char) : Bool :=
  isDigitRun isDigit word && (word.length == 1 || word.head? != some '0')

/-- The value of a run of digits. -/
def runValue (base : Nat) (word : List Char) : Option Nat :=
  Numeral.unsigned? base (word.filter (· ≠ '_'))

/-! ## Whole numbers -/

/-- A digit of a base up to sixteen. -/
def isDigitOf (base : Nat) (c : Char) : Bool :=
  match Numeral.digitValue? c with
  | some digit => digit < base
  | none => false

/-- A run of digits whose value is at most the given one. -/
def isUpTo (greatest base : Nat) (word : List Char) : Bool :=
  (runValue base word).any (· ≤ greatest)

/-- The digits of a whole number in a base, behind its mark. -/
def isBased (base : Nat) (word : List Char) : Bool :=
  isDigitRun (isDigitOf base) word && isUpTo 0x7FFFFFFFFFFFFFFF base word

/-- A whole number, which has to fit 64 bits with a sign. -/
def isInteger : List Char → Bool
  | '0' :: 'x' :: rest => isBased 16 rest
  | '0' :: 'o' :: rest => isBased 8 rest
  | '0' :: 'b' :: rest => isBased 2 rest
  | '-' :: rest => isDecimal rest && isUpTo 0x8000000000000000 10 rest
  | word => isDecimal (unsigned word) && isUpTo 0x7FFFFFFFFFFFFFFF 10 (unsigned word)

/-! ## Floating-point numbers -/

/-- A decimal number that is not negative: digits, multiplied by a power of ten. -/
structure Scaled where
  /-- The digits as one whole number. -/
  digits : Nat
  /-- The power of ten that they are multiplied by. -/
  exponent : Int
  deriving DecidableEq, Repr

/-- The least number whose nearest floating-point number of 64 bits is infinity:
it lies half a step above the greatest finite one. -/
def infinityThreshold : Nat := Nat.pow 2 1024 - Nat.pow 2 970

/-- The number is taken for infinity. Most numbers are decided by the place of
their first digit; the threshold has 309 digits. -/
def Scaled.isInfinite (number : Scaled) : Bool :=
  let place : Int := (Nat.toDigits 10 number.digits).length + number.exponent
  if number.digits = 0 || place < 309 then false
  else if 309 < place then true
  else
    infinityThreshold * Nat.pow 10 (-number.exponent).toNat ≤
      number.digits * Nat.pow 10 number.exponent.toNat

/-- Whole digits, with a fraction or without one. -/
def fixedPoint? (word : List Char) : Option Scaled :=
  match Text.splitFirst '.' word with
  | some (whole, fraction) =>
    if isDecimal whole && isDigitRun isDigit fraction then
      (runValue 10 (whole ++ fraction)).map fun digits =>
        ⟨digits, -((fraction.filter isDigit).length : Int)⟩
    else none
  | none => if isDecimal word then (runValue 10 word).map fun digits => ⟨digits, 0⟩ else none

/-- The value of an exponent with an optional sign. -/
def exponent? (word : List Char) : Option Int :=
  if isDigitRun isDigit (unsigned word) then
    (runValue 10 (unsigned word)).map fun n => if word.head? = some '-' then -(n : Int) else n
  else none

/-- The parts of a word before and after its exponent mark. -/
def splitExponent (word : List Char) : Option (List Char × List Char) :=
  (Text.splitFirst 'e' word).or (Text.splitFirst 'E' word)

/-- A number with a fraction or an exponent, and no sign in front of it. -/
def scaled? (word : List Char) : Option Scaled :=
  match splitExponent word with
  | some (front, back) => do
    let number ← fixedPoint? front
    return { number with exponent := number.exponent + (← exponent? back) }
  | none => if '.' ∈ word then fixedPoint? word else none

/-- A number with a fraction or an exponent, or one of the words for infinity and
for no number. A number that is taken for infinity is refused, a negative one
not. -/
def isFloat (word : List Char) : Bool :=
  let body := unsigned word
  body = "inf".toList || body = "nan".toList ||
    (scaled? body).any fun number => word.head? = some '-' || !number.isInfinite

/-! ## Dates and times -/

/-- The number that two digits write. -/
def twoDigits? : List Char → Option Nat
  | [a, b] => if isDigit a && isDigit b then runValue 10 [a, b] else none
  | _ => none

/-- A year, a month and a day that exists in it. -/
def isDate (word : List Char) : Bool :=
  match Text.splitAll '-' word with
  | [year, month, day] =>
    match runValue 10 year, twoDigits? month, twoDigits? day with
    | some year', some month, some day =>
      let leap := year' % 4 == 0 && (year' % 100 != 0 || year' % 400 == 0)
      let days :=
        match month with
        | 2 => if leap then 29 else 28
        | 4 | 6 | 9 | 11 => 30
        | _ => 31
      year.length == 4 && year.all isDigit && 1 ≤ month && month ≤ 12 && 1 ≤ day && day ≤ days
    | _, _, _ => false
  | _ => false

/-- An hour, a minute and a second with an optional fraction. -/
def isTime (word : List Char) : Bool :=
  let seconds (text : List Char) : Bool :=
    let (whole, fraction) := (Text.splitFirst '.' text).getD (text, ['0'])
    (twoDigits? whole).any (· ≤ 60) && !fraction.isEmpty && fraction.all isDigit
  match Text.splitAll ':' word with
  | [hour, minute, second] =>
    (twoDigits? hour).any (· ≤ 23) && (twoDigits? minute).any (· ≤ 59) && seconds second
  | _ => false

/-- An hour and a minute from the meridian. -/
def isOffset (word : List Char) : Bool :=
  match Text.splitAll ':' word with
  | [hour, minute] => (twoDigits? hour).any (· ≤ 23) && (twoDigits? minute).any (· ≤ 59)
  | _ => false

/-- A time with an optional offset behind it. -/
def isOffsetTime (word : List Char) : Bool :=
  if word.getLast? = some 'Z' || word.getLast? = some 'z' then isTime word.dropLast
  else
    match (Text.splitFirst '+' word).or (Text.splitFirst '-' word) with
    | some (time, offset) => isTime time && isOffset offset
    | none => isTime word

/-- A date, a time, or both with a letter or a space between them. -/
def isMoment (word : List Char) : Bool :=
  isDate word || isTime word ||
    (isDate (word.take 10) && word[10]?.any (fun c => c == 'T' || c == 't' || c == ' ') &&
      isOffsetTime (word.drop 11))

/-- A number, a date or a time. -/
def isScalar (word : List Char) : Bool :=
  isInteger word || isFloat word || isMoment word

end GameTrainer.Toml
