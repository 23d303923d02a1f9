import GameTrainer.CheatEntry
import GameTrainer.JsonValue
import GameTrainer.TrainerSettings

/-!
# JSON forms

How cheats, queries and settings are written as JSON and read from it. Reading is
strict: every field has to be there and of its kind, except that a cheat may lack
a description and settings may lack anything. Fields of other names are ignored.
What a rumble remembers is neither written nor read.
-/

namespace GameTrainer

/-- A width by its tag. -/
def Width.ofJson? : Json → Option Width :=
  Json.named? Width.all Width.tag

/-- A region by its name. -/
def Region.ofJson? : Json → Option Region :=
  Json.named? Region.all Region.name

/-- An operation by its name. -/
def Operation.ofJson? : Json → Option Operation :=
  Json.named? Operation.all Operation.name

/-- A rumble trigger by its name. -/
def RumbleTrigger.ofJson? : Json → Option RumbleTrigger :=
  Json.named? RumbleTrigger.all RumbleTrigger.name

namespace Query

/-- The name of a query's kind in JSON. -/
def jsonName : Query → String
  | exact _ => "Exact" | less => "Lt" | greater => "Gt" | lessOrEqual => "Lte"
  | greaterOrEqual => "Gte" | equal => "Eq" | unequal => "Neq"
  | equalPlus _ => "EqPlus" | equalMinus _ => "EqMinus"

/-- A query as JSON. -/
def toJson (query : Query) : Json :=
  match query.operand? with
  | some value => .object [(query.jsonName, .ofNat value.toNat)]
  | none => .string query.jsonName

/-- The queries without a value. -/
def relations : List Query :=
  [less, greater, lessOrEqual, greaterOrEqual, equal, unequal]

/-- A query read from JSON. -/
def ofJson? (json : Json) : Option Query :=
  match json.choice? with
  | some ("Exact", data) => (data.bind Json.word?).map exact
  | some ("EqPlus", data) => (data.bind Json.word?).map equalPlus
  | some ("EqMinus", data) => (data.bind Json.word?).map equalMinus
  | _ => json.named? relations jsonName

end Query

namespace Repetition

/-- A repetition as JSON. -/
def toJson (repetition : Repetition) : Json :=
  .object
    [("count", .ofNat repetition.count.toNat),
     ("add_to_value", .ofNat repetition.addToValue.toNat),
     ("add_to_address", .ofNat repetition.addToAddress.toNat)]

/-- A repetition read from JSON. -/
def ofJson? (json : Json) : Option Repetition := do
  let field ← json.record? ["count", "add_to_value", "add_to_address"]
  return {
    count := ← (← field "count").word?
    addToValue := ← (← field "add_to_value").word?
    addToAddress := ← (← field "add_to_address").word? }

end Repetition

namespace RumbleConfig

/-- A rumble configuration as JSON. -/
def toJson (config : RumbleConfig) : Json :=
  .object
    [("kind", .string config.trigger.name),
     ("value", .ofNat config.value.toNat),
     ("port", .ofNat config.port.toNat),
     ("primary_strength", .ofNat config.strongStrength.toNat),
     ("primary_duration_ms", .ofNat config.strongDuration.toNat),
     ("secondary_strength", .ofNat config.weakStrength.toNat),
     ("secondary_duration_ms", .ofNat config.weakDuration.toNat)]

/-- A rumble configuration read from JSON. -/
def ofJson? (json : Json) : Option RumbleConfig := do
  let field ← json.record?
    ["kind", "value", "port", "primary_strength", "primary_duration_ms", "secondary_strength",
     "secondary_duration_ms"]
  return {
    trigger := ← RumbleTrigger.ofJson? (← field "kind")
    value := ← (← field "value").word?
    port := ← (← field "port").word?
    strongStrength := ← (← field "primary_strength").halfWord?
    strongDuration := ← (← field "primary_duration_ms").word?
    weakStrength := ← (← field "secondary_strength").halfWord?
    weakDuration := ← (← field "secondary_duration_ms").word? }

end RumbleConfig

namespace Patch

/-- A patch as JSON. -/
def toJson (patch : Patch) : Json :=
  .object
    [("address", .ofNat patch.address.toNat),
     ("address_bit_mask", .ofNat patch.bitMask.toNat),
     ("width", .string patch.width.tag),
     ("op", .string patch.operation.name),
     ("value", .ofNat patch.value.toNat),
     ("big_endian", .bool patch.bigEndian),
     ("repeat", patch.repetition.toJson),
     ("rumble", patch.rumble.toJson)]

/-- A patch read from JSON. -/
def ofJson? (json : Json) : Option Patch := do
  let field ← json.record?
    ["address", "address_bit_mask", "width", "op", "value", "big_endian", "repeat", "rumble"]
  return {
    address := ← (← field "address").word?
    bitMask := ← (← field "address_bit_mask").word?
    width := ← Width.ofJson? (← field "width")
    operation := ← Operation.ofJson? (← field "op")
    value := ← (← field "value").word?
    bigEndian := ← (← field "big_endian").bool?
    repetition := ← Repetition.ofJson? (← field "repeat")
    rumble := ← RumbleConfig.ofJson? (← field "rumble") }

end Patch

namespace Effect

/-- What a cheat does, as JSON. -/
def toJson : Effect → Json
  | .code text => .object [(Handler.core.name, .object [("code", .string text)])]
  | .patch content => .object [(Handler.trainer.name, content.toJson)]

/-- What a cheat does, read from JSON. -/
def ofJson? (json : Json) : Option Effect := do
  let (name, data) ← json.choice?
  let content ← data
  if name = Handler.core.name then
    return .code (← (← content.member? "code").string?)
  else if name = Handler.trainer.name then
    return .patch (← Patch.ofJson? content)
  else none

end Effect

namespace Cheat

/-- A cheat as JSON. -/
def toJson (cheat : Cheat) : Json :=
  .object
    [("index", .ofNat cheat.index.toNat),
     ("description", .ofText? cheat.description),
     ("enabled", .bool cheat.enabled),
     ("kind", cheat.effect.toJson)]

/-- A cheat read from JSON. -/
def ofJson? (json : Json) : Option Cheat := do
  let field ← json.record? ["index", "description", "enabled", "kind"]
  return {
    index := ← (← field "index").word?
    description := ← ((field "description").getD .null).nullOrString?
    enabled := ← (← field "enabled").bool?
    effect := ← Effect.ofJson? (← field "kind") }

end Cheat

namespace Settings

/-- Settings as JSON. -/
def toJson (settings : Settings) : Json :=
  .object
    [("search_width", .string settings.searchWidth.tag),
     ("search_big_endian", .bool settings.searchBigEndian),
     ("region", .string settings.region.name),
     ("database_dir", .string settings.databaseDirectory),
     ("apply_after_load", .bool settings.applyAfterLoad),
     ("apply_after_toggle", .bool settings.applyAfterToggle)]

/-- Read a field that may be missing. -/
def optional? {α : Type} (read : Json → Option α) (fallback : α) : Option Json → Option α
  | some json => read json
  | none => some fallback

/-- Settings read from JSON; a field that is missing keeps its value in `base`. -/
def ofJson? (base : Settings) (json : Json) : Option Settings := do
  let field ← json.record?
    ["search_width", "search_big_endian", "region", "database_dir", "apply_after_load",
     "apply_after_toggle"]
  return {
    searchWidth := ← optional? Width.ofJson? base.searchWidth (field "search_width")
    searchBigEndian := ← optional? Json.bool? base.searchBigEndian (field "search_big_endian")
    region := ← optional? Region.ofJson? base.region (field "region")
    databaseDirectory := ← optional? Json.string? base.databaseDirectory (field "database_dir")
    applyAfterLoad := ← optional? Json.bool? base.applyAfterLoad (field "apply_after_load")
    applyAfterToggle := ← optional? Json.bool? base.applyAfterToggle (field "apply_after_toggle") }

end Settings

end GameTrainer
