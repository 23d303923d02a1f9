import GameTrainer.TextNumeral

/-!
# JSON values

JSON as a value, the ways in which records and choices are read from it, and its
written form with one member to a line.

A record is read from an object by the names of its fields, or from an array by
their order. A choice without data is its name, or an object with the name as
its only member and null under it; a choice with data is an object with the data
under its name. Data that are fields of the choice itself stand in an object.
-/

namespace GameTrainer

/-- A JSON value. -/
inductive Json where
  | null
  | bool (value : Bool)
  /-- The mantissa divided by ten to the power of the exponent. -/
  | number (mantissa : Int) (exponent : Nat)
  | string (text : String)
  | array (items : List Json)
  | object (members : List (String × Json))
  deriving Inhabited

namespace Json

/-- A whole number. -/
def ofNat (n : Nat) : Json := .number n 0

/-- A text, or null for none. -/
def ofText? : Option String → Json
  | some text => .string text
  | none => .null

/-! ## Reading -/

/-- A truth value. -/
def bool? : Json → Option Bool
  | .bool value => some value
  | _ => none

/-- A text. -/
def string? : Json → Option String
  | .string text => some text
  | _ => none

/-- A text that may be null. -/
def nullOrString? : Json → Option (Option String)
  | .null => some none
  | .string text => some (some text)
  | _ => none

/-- A whole number from zero up to below the bound. -/
def below? (bound : Nat) : Json → Option Nat
  | .number (.ofNat n) 0 => if n < bound then some n else none
  | _ => none

/-- A number of 32 bits. -/
def word? (json : Json) : Option UInt32 :=
  (json.below? UInt32.size).map UInt32.ofNat

/-- A number of 16 bits. -/
def halfWord? (json : Json) : Option UInt16 :=
  (json.below? UInt16.size).map UInt16.ofNat

/-- The fields of a record, given their names in order. -/
def record? (names : List String) : Json → Option (String → Option Json)
  | .object members => some fun name => members.lookup name
  | .array items =>
    if items.length ≤ names.length then some fun name => (names.zip items).lookup name else none
  | _ => none

/-- The member of an object with a name. -/
def member? (name : String) : Json → Option Json
  | .object members => members.lookup name
  | _ => none

/-- The name of a choice, and the data that comes with it. -/
def choice? : Json → Option (String × Option Json)
  | .string name => some (name, none)
  | .object [(name, data)] => some (name, some data)
  | _ => none

/-- A choice among values without data, each with a name of its own. -/
def named? {α : Type} (values : List α) (name : α → String) (json : Json) : Option α :=
  match json.choice? with
  | some (text, none) | some (text, some .null) => values.find? fun value => name value == text
  | _ => none

/-! ## Writing -/

/-- A character as it stands in a quoted text. -/
def escape (c : Char) : String :=
  if c = '\x22' then "\\\""
  else if c = '\\' then "\\\\"
  else if c = '\n' then "\\n"
  else if c = '\r' then "\\r"
  else if c = '\t' then "\\t"
  else if c = '\x08' then "\\b"
  else if c = '\x0c' then "\\f"
  else if c.toNat < 0x20 then "\\u" ++ Numeral.hexDigits 4 c.toNat
  else String.singleton c

/-- A quoted text. -/
def quote (text : String) : String :=
  "\"" ++ String.join (text.toList.map escape) ++ "\""

/-- A number; one that is not whole is written with a power of ten. -/
def numberText (mantissa : Int) (exponent : Nat) : String :=
  if exponent = 0 then toString mantissa
  else toString mantissa ++ "e-" ++ toString exponent

/-- A new line with so many steps of indentation. -/
def newLine (depth : Nat) : String :=
  "\n" ++ String.ofList (List.replicate (2 * depth) ' ')

/-- Elements between brackets, each on a line of its own. -/
def bracketed (opening closing : String) (depth : Nat) (elements : List String) : String :=
  if elements.isEmpty then opening ++ closing
  else
    opening ++ String.intercalate "," (elements.map fun text => newLine (depth + 1) ++ text) ++
      newLine depth ++ closing

mutual

/-- A value written with one element or member to a line, below so many steps of
indentation. -/
def render (depth : Nat) : Json → String
  | .null => "null"
  | .bool true => "true"
  | .bool false => "false"
  | .number mantissa exponent => numberText mantissa exponent
  | .string text => quote text
  | .array items => bracketed "[" "]" depth (renderItems (depth + 1) items)
  | .object members => bracketed "\x7b" "\x7d" depth (renderMembers (depth + 1) members)

/-- The elements of an array. -/
def renderItems (depth : Nat) : List Json → List String
  | [] => []
  | item :: rest => render depth item :: renderItems depth rest

/-- The members of an object. -/
def renderMembers (depth : Nat) : List (String × Json) → List String
  | [] => []
  | (name, value) :: rest =>
    (quote name ++ ": " ++ render depth value) :: renderMembers depth rest

end

end Json

end GameTrainer
