/-!
# TOML items

The values of a TOML document and the ways in which tables grow. A table is
written in braces, or named by a header, or comes about on the way to another
key; what may still be added to it depends on that. Main statement: a key that a
table has is never set again.
-/

namespace GameTrainer.Toml

/-- How a table came about. -/
inductive Origin where
  /-- Written in braces, and complete. -/
  | braces
  /-- Named by a header. -/
  | header
  /-- On the way of a header. -/
  | underway
  /-- On the way of a key with points. -/
  | dotted
  deriving DecidableEq, Repr

/-- A value of a document. -/
inductive Item where
  | text (content : String)
  | flag (value : Bool)
  /-- A number, a date or a time. -/
  | scalar
  | array (items : List Item)
  | table (origin : Origin) (entries : List (String × Item))
  /-- Tables that are named by one header, each time anew. -/
  | series (tables : List (List (String × Item)))
  deriving Inhabited

/-- The keys of a table with their items. -/
abbrev Entries := List (String × Item)

/-- Nothing stands in the item. -/
def Item.isEmpty : Item → Bool
  | array [] | table _ [] | series [] => true
  | _ => false

namespace Entries

/-- The entries with the item of a key changed, in place if the key is there, at
the end if not. -/
def update (key : String) (change : Option Item → Option Item) : Entries → Option Entries
  | [] => (change none).map fun item => [(key, item)]
  | (name, item) :: rest =>
    if name = key then (change (some item)).map fun item => (name, item) :: rest
    else (update key change rest).map fun rest => (name, item) :: rest

/-- The entries with a new key. -/
def add (key : String) (item : Item) : Entries → Option Entries :=
  update key fun
    | none => some item
    | some _ => none

/-- The tables of a series with the last one changed. -/
def changeLast (change : Entries → Option Entries) (tables : List Entries) :
    Option (List Entries) :=
  tables.getLast?.bind fun last => (change last).map fun last => tables.dropLast ++ [last]

/-- The entries with those under a path changed. A header leads through any table
that is not in braces and through the last one of a series, and makes tables that
are missing. -/
def within (change : Entries → Option Entries) : List String → Entries → Option Entries
  | [], entries => change entries
  | key :: path, entries =>
    entries.update key fun
      | none => (within change path []).map (.table .underway)
      | some (.table .braces _) => none
      | some (.table origin inner) => (within change path inner).map (.table origin)
      | some (.series tables) => (changeLast (within change path) tables).map .series
      | some _ => none

/-- The entries with an item under a key with points. The key leads only through
tables that no header named, and its last table is one that keys with points
brought about. -/
def addDotted (item : Item) : List String → Entries → Option Entries
  | [], _ => none
  | [key], entries => entries.add key item
  | key :: next :: path, entries =>
    entries.update key fun
      | none => (addDotted item (next :: path) []).map (.table .dotted)
      | some (.table .dotted inner) =>
        (addDotted item (next :: path) inner).map (.table .dotted)
      | some (.table .underway inner) =>
        if path.isEmpty then none
        else (addDotted item (next :: path) inner).map (.table .underway)
      | some (.series tables) =>
        if path.isEmpty then none
        else (changeLast (addDotted item (next :: path)) tables).map .series
      | some _ => none

/-- The entries with the table that a header names, which is new or came about on
the way of another header. -/
def openTable (key : String) : Entries → Option Entries :=
  update key fun
    | none => some (.table .header [])
    | some (.table .underway inner) => some (.table .header inner)
    | some _ => none

/-- The entries with one more table in the series that a header names. -/
def openNext (key : String) : Entries → Option Entries :=
  update key fun
    | none => some (.series [[]])
    | some (.series tables) => some (.series (tables ++ [[]]))
    | some _ => none

/-- A key that is there is not added again. -/
theorem add_eq_none {key : String} {item : Item} {entries : Entries}
    (h : key ∈ entries.map Prod.fst) : entries.add key item = none := by
  induction entries with
  | nil => simp at h
  | cons entry rest ih =>
    obtain ⟨name, old⟩ := entry
    by_cases hname : name = key
    · simp [add, update, hname]
    · have hrest : key ∈ rest.map Prod.fst := by
        rcases List.mem_cons.1 h with heq | hmem
        · exact absurd heq.symm hname
        · exact hmem
      have hnone : update key (fun
          | none => some item
          | some _ => none) rest = none := ih hrest
      simp [add, update, hname, hnone]

end Entries

end GameTrainer.Toml
