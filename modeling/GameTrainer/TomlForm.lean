import GameTrainer.TomlDocument
import GameTrainer.TrainerSettings

/-!
# TOML forms

How settings are read from a TOML document. A choice is its name as a text, or a
table with the name as its only key and nothing under it. A setting that is
missing keeps its value, one of another kind is refused, and keys of other names
are ignored.
-/

namespace GameTrainer

namespace Toml.Item

/-- A choice among values, each with a name of its own. -/
def named? {α : Type} (values : List α) (name : α → String) : Item → Option α
  | text content => values.find? fun value => name value == content
  | table _ [(key, item)] =>
    if item.isEmpty then values.find? fun value => name value == key else none
  | _ => none

/-- A truth value. -/
def flag? : Item → Option Bool
  | flag value => some value
  | _ => none

/-- A text. -/
def text? : Item → Option String
  | text content => some content
  | _ => none

end Toml.Item

namespace Settings

/-- A setting of a document, which may be missing. -/
def setting? {α : Type} (entries : Toml.Entries) (key : String) (read : Toml.Item → Option α)
    (fallback : α) : Option α :=
  match entries.lookup key with
  | some item => read item
  | none => some fallback

/-- The settings of a document. -/
def ofToml? (entries : Toml.Entries) : Option Settings := do
  let base : Settings := {}
  return {
    searchWidth := ←
      setting? entries "search_width" (Toml.Item.named? Width.all Width.tag) base.searchWidth
    searchBigEndian := ←
      setting? entries "search_big_endian" Toml.Item.flag? base.searchBigEndian
    region := ← setting? entries "region" (Toml.Item.named? Region.all Region.name) base.region
    databaseDirectory := ←
      setting? entries "database_dir" Toml.Item.text? base.databaseDirectory
    applyAfterLoad := ← setting? entries "apply_after_load" Toml.Item.flag? base.applyAfterLoad
    applyAfterToggle := ←
      setting? entries "apply_after_toggle" Toml.Item.flag? base.applyAfterToggle }

end Settings

end GameTrainer
