import GameTrainer.TextBlank

/-!
# Numerals

Values are written in decimal, or in hexadecimal behind `0x`. A numeral may
carry a plus sign and any number of leading zeros, and denotes a value only
when that value is in range; it is never cut down to the range.
-/

namespace GameTrainer.Numeral

/-- The value of a digit in either letter case, up to fifteen for `f`. -/
def digitValue? (c : Char) : Option Nat :=
  if '0' ≤ c ∧ c ≤ '9' then some (c.toNat - '0'.toNat)
  else if 'a' ≤ c ∧ c ≤ 'f' then some (c.toNat - 'a'.toNat + 10)
  else if 'A' ≤ c ∧ c ≤ 'F' then some (c.toNat - 'A'.toNat + 10)
  else none

/-- Continue a positional value with further digits; refuses a character that
is no digit of the base. -/
def digits? (base : Nat) (value : Nat) : List Char → Option Nat
  | [] => some value
  | c :: rest =>
    match digitValue? c with
    | some digit => if digit < base then digits? base (value * base + digit) rest else none
    | none => none

/-- One or more digits of the base. -/
def unsigned? (base : Nat) (text : List Char) : Option Nat :=
  if text.isEmpty then none else digits? base 0 text

/-- An optional plus sign, then one or more digits of the base. -/
def natural? (base : Nat) : List Char → Option Nat
  | '+' :: rest => unsigned? base rest
  | text => unsigned? base text

/-- An optional sign, then one or more decimal digits. -/
def integer? : List Char → Option Int
  | '-' :: rest => (unsigned? 10 rest).map fun n => -(n : Int)
  | text => (natural? 10 text).map fun n => (n : Int)

/-- A number below the bound, and otherwise nothing. -/
def below? (bound : Nat) (number : Option Nat) : Option Nat :=
  number.filter fun n => n < bound

/-- The value of a word: decimal, or hexadecimal behind `0x` or `0X`, with
blanks around it ignored, below 2^32. -/
def word? (text : List Char) : Option UInt32 :=
  let number :=
    match Text.trim text with
    | '0' :: 'x' :: hex => natural? 16 hex
    | '0' :: 'X' :: hex => natural? 16 hex
    | decimal => natural? 10 decimal
  (below? UInt32.size number).map UInt32.ofNat

/-- The hexadecimal digits of a number, in lower case, filled up with zeros to
the given count. -/
def hexDigits (count : Nat) (n : Nat) : String :=
  let digits := Nat.toDigits 16 n
  String.ofList (List.replicate (count - digits.length) '0' ++ digits)

/-- A number in hexadecimal behind `0x`. -/
def hex (n : Nat) : String :=
  "0x" ++ hexDigits 1 n

/-- A number in hexadecimal behind `0x`, with at least the given count of digits. -/
def hexPadded (count : Nat) (n : Nat) : String :=
  "0x" ++ hexDigits count n

/-- A text moved to the right end of a field of the given width. -/
def alignRight (width : Nat) (text : String) : String :=
  String.ofList (List.replicate (width - text.length) ' ') ++ text

/-- A text moved to the left end of a field of the given width. -/
def alignLeft (width : Nat) (text : String) : String :=
  text ++ String.ofList (List.replicate (width - text.length) ' ')

end GameTrainer.Numeral
