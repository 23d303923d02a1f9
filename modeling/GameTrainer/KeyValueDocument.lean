import Std.Data.HashMap
import GameTrainer.TextBlank
import GameTrainer.TextSplit

/-!
# Key and value documents

A document is a list of keys with one value each, in the order in which the keys
first came, and an index that finds the place of a key. Setting a key that is
there changes its value in place, so that a document can be brought up to date
without disturbing what else it holds. Values are kept to one line.

As text each key has a line of its own, with the value in quotes behind an
equals sign.
-/

namespace GameTrainer

/-- Keys with their values, in order, and the place of each key. -/
structure Document where
  /-- The keys and values, in order. -/
  entries : Array (String × String) := #[]
  /-- The place of each key among the entries. -/
  places : Std.HashMap String Nat := ∅

namespace Document

/-- A value on one line: each carriage return and line feed becomes a space. -/
def flatten (value : String) : String :=
  String.ofList (value.toList.map fun c => if c = '\r' ∨ c = '\n' then ' ' else c)

/-- The number of keys. -/
def size (document : Document) : Nat := document.entries.size

/-- The value of a key. -/
def get? (document : Document) (key : String) : Option String :=
  document.places[key]?.bind fun place => document.entries[place]?.map Prod.snd

/-- The document has the key. -/
def contains (document : Document) (key : String) : Bool :=
  document.places.contains key

/-- Give a key a value: in place if the key is there, at the end if not. -/
def set (document : Document) (key value : String) : Document :=
  let line := flatten value
  match document.places[key]? with
  | some place =>
    { document with entries := document.entries.modify place fun entry => (entry.1, line) }
  | none =>
    { entries := document.entries.push (key, line),
      places := document.places.insert key document.entries.size }

/-- Take a key out, and give the value that stood at its place. The keys behind it move up by one
place. -/
def pop (document : Document) (key : String) : Option String × Document :=
  match document.places[key]? with
  | some place =>
    (document.entries[place]?.map Prod.snd,
      { entries := document.entries.eraseIdxIfInBounds place,
        places := (document.places.erase key).map fun _ other =>
          if place < other then other - 1 else other })
  | none => (none, document)

/-- Take a key out. -/
def remove (document : Document) (key : String) : Document :=
  (document.pop key).2

/-- The keys and values, in order. -/
def toList (document : Document) : List (String × String) :=
  document.entries.toList

/-- A text without the quotes around it, if it has them at both ends. -/
def unquote (text : List Char) : List Char :=
  match text with
  | '\x22' :: rest => if rest.getLast? = some '\x22' then rest.dropLast else text
  | _ => text

/-- The key and value on a line, unless it is empty, a comment, or has no equals
sign. -/
def readLine? (line : List Char) : Option (String × String) :=
  match Text.trim line with
  | [] => none
  | '#' :: _ => none
  | text =>
    (Text.splitFirst '=' text).map fun (key, value) =>
      (String.ofList (Text.trim key), String.ofList (unquote (Text.trim value)))

/-- The document with keys set one after the other. -/
def setAll (document : Document) (pairs : List (String × String)) : Document :=
  pairs.foldl (fun document pair => document.set pair.1 pair.2) document

/-- Read a document: one key and value on each line, comment lines behind `#`.
A key that comes again keeps its place and takes the last value. -/
def parse (text : String) : Document :=
  setAll {} ((Text.lines text.toList).filterMap readLine?)

/-- One line of the text of a document. -/
def renderLine (entry : String × String) : String :=
  entry.1 ++ " = \"" ++ entry.2 ++ "\"\n"

/-- A document as text. -/
def render (document : Document) : String :=
  String.join (document.toList.map renderLine)

/-- The index finds exactly the keys, each at its place. -/
def WellIndexed (document : Document) : Prop :=
  ∀ (key : String) (place : Nat), document.places[key]? = some place ↔
    (document.entries[place]?.map Prod.fst) = some key

end Document

end GameTrainer
