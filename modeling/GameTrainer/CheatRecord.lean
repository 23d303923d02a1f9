import GameTrainer.CheatEntry
import GameTrainer.Failure
import GameTrainer.KeyValueDocument
import GameTrainer.TextNumeral

/-!
# Cheats as records of a document

A cheat file is a document with the number of cheats under one key and a record
for each cheat: the fields of cheat `i` stand under the keys `cheat{i}_{field}`.
Reading degrades field by field. A number that is missing or no numeral is zero,
and a code that nothing has is the plainest choice, so one bad field costs
nothing but itself. Only a file without cheats is refused.

Writing puts a cheat's fields over what the document holds and leaves all other
keys alone.
-/

namespace GameTrainer

namespace CheatRecord

/-- The key that holds the number of cheats. -/
def countKey : String := "cheats"

/-- The key of a field of the cheat at a place. -/
def key (index : Nat) (field : String) : String :=
  "cheat" ++ toString index ++ "_" ++ field

/-! ## Reading -/

/-- The fields of one record, by their names. -/
abbrev Fields := String → Option String

/-- The fields of the record at a place of a document. -/
def fields (document : Document) (index : Nat) : Fields :=
  fun field => document.get? (key index field)

/-- A field as text; missing text is empty. -/
def text (fields : Fields) (field : String) : String :=
  (fields field).getD ""

/-- The number that a text stands for, zero where it is no numeral. -/
def numberOf (raw : String) : UInt32 :=
  (Numeral.word? raw.toList).getD 0

/-- A field as a number; a missing one counts as `missing`. -/
def numberOr (fields : Fields) (field : String) (missing : UInt32) : UInt32 :=
  ((fields field).map numberOf).getD missing

/-- A field as a number; a missing one is zero. -/
def number (fields : Fields) (field : String) : UInt32 :=
  numberOr fields field 0

/-- A field as a strength; larger numbers count as the largest strength. -/
def strength (fields : Fields) (field : String) : UInt16 :=
  UInt16.ofNat (min (number fields field).toNat 0xFFFF)

/-- A text that says yes: `true` in any letter case, or `1`. -/
def isYes (raw : String) : Bool :=
  let word := Text.trim raw.toList
  word.map Char.toLower == "true".toList || word == "1".toList

/-- A field as yes or no, if it is there. -/
def flag? (fields : Fields) (field : String) : Option Bool :=
  (fields field).map isYes

/-- A field as the code of a value; a number that is no code gives the fallback. -/
def coded {α : Type} (fields : Fields) (field : String) (decode : Nat → Option α)
    (fallback : α) : α :=
  (decode (number fields field).toNat).getD fallback

/-- The byte order of a patch, which older files keep under a shorter name. -/
def bigEndian (fields : Fields) : Bool :=
  ((flag? fields "big_endian").or (flag? fields "endian")).getD false

/-- The patch in a record. -/
def readPatch (fields : Fields) : Patch where
  address := number fields "address"
  bitMask := number fields "address_bit_position"
  width := coded fields "memory_search_size" Width.ofCode? .bits8
  operation := coded fields "cheat_type" Operation.ofCode? .disabled
  value := number fields "value"
  bigEndian := bigEndian fields
  repetition :=
    { count := numberOr fields "repeat_count" 1
      addToValue := numberOr fields "repeat_add_to_value" 0
      addToAddress := numberOr fields "repeat_add_to_address" 1 }
  rumble :=
    { trigger := coded fields "rumble_type" RumbleTrigger.ofCode? .disabled
      value := number fields "rumble_value"
      port := number fields "rumble_port"
      strongStrength := strength fields "rumble_primary_strength"
      strongDuration := number fields "rumble_primary_duration"
      weakStrength := strength fields "rumble_secondary_strength"
      weakDuration := number fields "rumble_secondary_duration" }

/-- What the cheat in a record does. -/
def readEffect (fields : Fields) : Effect :=
  match coded fields "handler" Handler.ofCode? .core with
  | .core => .code (text fields "code")
  | .trainer => .patch (readPatch fields)

/-- The cheat in a record. -/
def readCheat (fields : Fields) (index : Nat) : Cheat where
  index := UInt32.ofNat index
  description := fields "desc"
  enabled := (flag? fields "enable").getD false
  effect := readEffect fields

/-- The number of cheats that a document announces. -/
def announced (document : Document) : Nat :=
  (number document.get? countKey).toNat

/-- All cheats of a document. There are no more of them than the document has
keys, whatever number it announces. -/
def readAll (document : Document) : Except Failure (List Cheat) :=
  if announced document = 0 then .error .noCheats
  else
    let count := min (announced document) document.size
    .ok ((List.range count).map fun i => readCheat (fields document i) i)

/-! ## Writing -/

/-- A truth value as a field. -/
def flagText (flag : Bool) : String :=
  if flag then "true" else "false"

/-- The fields of a patch, in the order in which they are written. -/
def patchFields (patch : Patch) : List (String × String) :=
  [("big_endian", flagText patch.bigEndian),
   ("memory_search_size", toString patch.width.code),
   ("cheat_type", toString patch.operation.code),
   ("value", toString patch.value.toNat),
   ("address", toString patch.address.toNat),
   ("address_bit_position", toString patch.bitMask.toNat),
   ("rumble_type", toString patch.rumble.trigger.code),
   ("rumble_value", toString patch.rumble.value.toNat),
   ("rumble_port", toString patch.rumble.port.toNat),
   ("rumble_primary_strength", toString patch.rumble.strongStrength.toNat),
   ("rumble_primary_duration", toString patch.rumble.strongDuration.toNat),
   ("rumble_secondary_strength", toString patch.rumble.weakStrength.toNat),
   ("rumble_secondary_duration", toString patch.rumble.weakDuration.toNat),
   ("repeat_count", toString patch.repetition.count.toNat),
   ("repeat_add_to_value", toString patch.repetition.addToValue.toNat),
   ("repeat_add_to_address", toString patch.repetition.addToAddress.toNat)]

/-- The fields of a cheat other than its description, in the order in which they
are written. -/
def cheatFields (cheat : Cheat) : List (String × String) :=
  [("code", cheat.code?.getD ""),
   ("enable", flagText cheat.enabled),
   ("handler", toString cheat.handler.code)] ++
    (cheat.patch?.map patchFields).getD []

/-- Put a cheat's record into a document. A cheat without a description has no
field for it, not even an older one. -/
def writeCheat (document : Document) (index : Nat) (cheat : Cheat) : Document :=
  let described :=
    match cheat.description with
    | some text => document.set (key index "desc") text
    | none => document.remove (key index "desc")
  described.setAll ((cheatFields cheat).map fun field => (key index field.1, field.2))

/-- Put cheats into a document, in order. -/
def writeAll (document : Document) (cheats : List Cheat) : Document :=
  cheats.zipIdx.foldl (fun document entry => writeCheat document entry.2 entry.1)
    (document.set countKey (toString cheats.length))

end CheatRecord

end GameTrainer
