import GameTrainer.TomlItem
import GameTrainer.TomlScalar

/-!
# TOML documents

A settings file is a TOML document: lines with a key, an equals sign and a value,
headers in brackets, and comments behind `#`. Values may stand in each other, and
keys may go on behind points, but not without end.

Reading is by steps that take the front of a text and leave the rest. Steps that
repeat are bounded by the length of the text.
-/

namespace GameTrainer.Toml

/-- A step: what it read, and the rest of the text. -/
abbrev Step (α : Type) := List Char → Option (α × List Char)

/-- The text behind spaces and tabs. -/
def skipSpace (text : List Char) : List Char :=
  text.dropWhile fun c => c = ' ' || c = '\t'

/-- A character that may stand in comments and in strings of one line. -/
def isPlain (c : Char) : Bool :=
  c = '\t' || (0x20 ≤ c.toNat && c.toNat ≠ 0x7F)

/-- The text behind a comment, up to the end of its line. -/
def skipComment (text : List Char) : List Char :=
  match text with
  | '#' :: rest => rest.dropWhile isPlain
  | _ => text

/-- The text behind blanks, comments and line ends. -/
def skipLines : (fuel : Nat) → List Char → List Char
  | 0, text => text
  | fuel + 1, text =>
    match skipComment (skipSpace text) with
    | '\n' :: rest => skipLines fuel rest
    | rest => rest

/-! ## Strings -/

/-- A character given by so many hexadecimal digits. -/
def codePoint (digits : Nat) : Step Char := fun text =>
  let word := text.take digits
  if word.length = digits then
    (Numeral.unsigned? 16 word).bind fun n =>
      if n.isValidChar then some (Char.ofNat n, text.drop digits) else none
  else none

/-- The character that stands behind a backslash. -/
def escape : Step Char
  | 'b' :: rest => some ('\x08', rest)
  | 't' :: rest => some ('\t', rest)
  | 'n' :: rest => some ('\n', rest)
  | 'f' :: rest => some ('\x0c', rest)
  | 'r' :: rest => some ('\r', rest)
  | '\x22' :: rest => some ('\x22', rest)
  | '\\' :: rest => some ('\\', rest)
  | 'u' :: rest => codePoint 4 rest
  | 'U' :: rest => codePoint 8 rest
  | _ => none

/-- A string in double quotes, behind the first of them. -/
def basicString : (fuel : Nat) → (read : List Char) → Step String
  | 0, _, _ => none
  | fuel + 1, read, text =>
    match text with
    | '\x22' :: rest => some (String.ofList read.reverse, rest)
    | '\\' :: rest =>
      (escape rest).bind fun (c, rest) => basicString fuel (c :: read) rest
    | c :: rest => if isPlain c then basicString fuel (c :: read) rest else none
    | [] => none

/-- A string in single quotes, behind the first of them. -/
def literalString (text : List Char) : Option (String × List Char) :=
  let inside := text.takeWhile fun c => isPlain c && c ≠ '\x27'
  match text.drop inside.length with
  | '\x27' :: rest => some (String.ofList inside, rest)
  | _ => none

/-- The text behind the first line end, which opens a string of several lines
without being part of it. -/
def skipFirstLineEnd : List Char → List Char
  | '\n' :: rest => rest
  | text => text

/-- A string of several lines between three quotes of a kind, behind the first
three. One or two more quotes may stand before the last three. In double quotes
a backslash escapes, and one at the end of a line joins it to the next text. -/
def longString (quote : Char) (escapes : Bool) : (fuel : Nat) → (read : List Char) → Step String
  | 0, _, _ => none
  | fuel + 1, read, text =>
    if text.take 3 = [quote, quote, quote] then
      let quotes := (text.take 5).takeWhile (· = quote)
      some (String.ofList (read.reverse ++ quotes.drop 3), text.drop quotes.length)
    else
      match text with
      | [] => none
      | c :: rest =>
        if escapes && c = '\\' then
          match skipSpace rest with
          | '\n' :: _ =>
            longString quote escapes fuel read
              (rest.dropWhile fun c => c = ' ' || c = '\t' || c = '\n')
          | _ =>
            (escape rest).bind fun (c, rest) => longString quote escapes fuel (c :: read) rest
        else if isPlain c || c = '\n' then longString quote escapes fuel (c :: read) rest
        else none

/-- A string of any kind. -/
def anyString (text : List Char) : Option (String × List Char) :=
  match text with
  | '\x22' :: '\x22' :: '\x22' :: rest =>
    longString '\x22' true (rest.length + 1) [] (skipFirstLineEnd rest)
  | '\x27' :: '\x27' :: '\x27' :: rest =>
    longString '\x27' false (rest.length + 1) [] (skipFirstLineEnd rest)
  | '\x22' :: rest => basicString (rest.length + 1) [] rest
  | '\x27' :: rest => literalString rest
  | _ => none

/-! ## Keys -/

/-- A character of a key without quotes. -/
def isKeyChar (c : Char) : Bool :=
  c.isAlphanum || c = '_' || c = '-'

/-- One name of a key. -/
def keyName (text : List Char) : Option (String × List Char) :=
  match text with
  | '\x22' :: rest => basicString (rest.length + 1) [] rest
  | '\x27' :: rest => literalString rest
  | _ =>
    let word := text.takeWhile isKeyChar
    if word.isEmpty then none else some (String.ofList word, text.drop word.length)

/-- The number from which names of a key, and values that stand in each other, are
too many. -/
def depthLimit : Nat := 80

/-- Names with points between them. -/
def names : (fuel : Nat) → Step (List String)
  | 0, _ => none
  | fuel + 1, text => do
    let (name, rest) ← keyName (skipSpace text)
    match skipSpace rest with
    | '.' :: rest =>
      let (later, rest) ← names fuel rest
      return (name :: later, rest)
    | rest => return ([name], rest)

/-- A key: one or more names. -/
def keyPath (text : List Char) : Option (List String × List Char) :=
  (names (text.length + 1) text).filter fun key => key.1.length < depthLimit

/-! ## Values -/

/-- A character of a number, a date or one of the fixed words. -/
def isWordChar (c : Char) : Bool :=
  c.isAlphanum || c = '_' || c = '-' || c = '+' || c = '.' || c = ':'

/-- A value that is one word; a date and a time may have a space between them. -/
def wordValue (text : List Char) : Option (Item × List Char) :=
  let first := text.takeWhile isWordChar
  let rest := text.drop first.length
  let word :=
    match rest with
    | ' ' :: c :: _ =>
      if isDate first && isDigit c then first ++ ' ' :: (rest.drop 1).takeWhile isWordChar
      else first
    | _ => first
  let rest := text.drop word.length
  if word = "true".toList then some (.flag true, rest)
  else if word = "false".toList then some (.flag false, rest)
  else if isScalar word then some (.scalar, rest)
  else none

/-- A table of keys with their items. -/
def tableOf (entries : List (List String × Item)) : Option Item :=
  (entries.foldlM (fun table entry => Entries.addDotted entry.2 entry.1 table) []).map
    (.table .braces)

mutual

/-- Any value, given how many values may stand in each other within it. -/
def value : (fuel depth : Nat) → Step Item
  | 0, _, _ => none
  | fuel + 1, depth, text =>
    match text, depth with
    | '[' :: _, 0 | '\x7b' :: _, 0 => none
    | '[' :: rest, depth + 1 =>
      (elements fuel depth rest).map fun (items, rest) => (.array items, rest)
    | '\x7b' :: rest, depth + 1 =>
      match skipSpace rest with
      | '\x7d' :: rest => some (.table .braces [], rest)
      | rest =>
        (inlineEntries fuel depth rest).bind fun (entries, rest) =>
          (tableOf entries).map fun table => (table, rest)
    | '\x22' :: _, _ | '\x27' :: _, _ =>
      (anyString text).map fun (text, rest) => (.text text, rest)
    | _, _ => wordValue text

/-- The elements of an array, behind its opening bracket or a comma. -/
def elements : (fuel depth : Nat) → Step (List Item)
  | 0, _, _ => none
  | fuel + 1, depth, text =>
    match skipLines text.length text with
    | ']' :: rest => some ([], rest)
    | text => do
      let (item, rest) ← value fuel depth text
      match skipLines rest.length rest with
      | ',' :: rest =>
        let (items, rest) ← elements fuel depth rest
        return (item :: items, rest)
      | ']' :: rest => return ([item], rest)
      | _ => none

/-- The entries of a table on one line, behind its opening brace or a comma. -/
def inlineEntries : (fuel depth : Nat) → Step (List (List String × Item))
  | 0, _, _ => none
  | fuel + 1, depth, text => do
    let (entry, rest) ← keyValue fuel depth text
    match skipSpace rest with
    | ',' :: rest =>
      let (entries, rest) ← inlineEntries fuel depth rest
      return (entry :: entries, rest)
    | '\x7d' :: rest => return ([entry], rest)
    | _ => none

/-- A key with its value. -/
def keyValue : (fuel depth : Nat) → Step (List String × Item)
  | 0, _, _ => none
  | fuel + 1, depth, text => do
    let (key, rest) ← keyPath text
    match rest with
    | '=' :: rest =>
      let (content, rest) ← value fuel depth (skipSpace rest)
      return ((key, content), rest)
    | _ => none

end

/-! ## Documents -/

/-- What one line of a document says, or several lines that hold one value. -/
inductive Statement where
  /-- The following entries belong to the table with this name. -/
  | table (path : List String)
  /-- The following entries belong to one more table of the series with this name. -/
  | next (path : List String)
  | entry (key : List String) (item : Item)

/-- A header, behind its opening brackets, up to its closing ones. -/
def header (closing : List Char) (text : List Char) : Option (List String × List Char) :=
  (keyPath text).bind fun (path, rest) =>
    if closing.isPrefixOf rest then some (path, rest.drop closing.length) else none

/-- One statement. -/
def statement (text : List Char) : Option (Statement × List Char) :=
  match text with
  | '[' :: '[' :: rest => (header [']', ']'] rest).map fun (path, rest) => (.next path, rest)
  | '[' :: rest => (header [']'] rest).map fun (path, rest) => (.table path, rest)
  | _ =>
    (keyValue (text.length + 1) (depthLimit - 1) text).map fun ((key, item), rest) =>
      (.entry key item, rest)

/-- The statements of a document, each on lines of its own. -/
def statements : (fuel : Nat) → List Char → Option (List Statement)
  | 0, _ => none
  | fuel + 1, text =>
    match skipLines text.length text with
    | [] => some []
    | text => do
      let (first, rest) ← statement text
      match skipComment (skipSpace rest) with
      | [] => return [first]
      | '\n' :: rest => return first :: (← statements fuel rest)
      | _ => none

/-- The tables of a document so far. -/
structure Reading where
  /-- All entries. -/
  root : Entries := []
  /-- The name of the table that entries are added to. -/
  path : List String := []

/-- The tables after one more statement. -/
def Reading.add (reading : Reading) : Statement → Option Reading
  | .table path =>
    (reading.root.within (Entries.openTable (path.getLast?.getD "")) path.dropLast).map fun root =>
      ⟨root, path⟩
  | .next path =>
    (reading.root.within (Entries.openNext (path.getLast?.getD "")) path.dropLast).map fun root =>
      ⟨root, path⟩
  | .entry key item =>
    (reading.root.within (Entries.addDotted item key) reading.path).map fun root =>
      { reading with root := root }

/-- A text with one character at each line end. -/
def joinLineEnds : List Char → List Char
  | '\r' :: '\n' :: rest => '\n' :: joinLineEnds rest
  | c :: rest => c :: joinLineEnds rest
  | [] => []

/-- A text without the mark of byte order at its front. -/
def skipMark : List Char → List Char
  | '\uFEFF' :: rest => rest
  | text => text

/-- Read a document. -/
def parse (text : String) : Option Entries := do
  let chars := joinLineEnds (skipMark text.toList)
  let found ← statements (chars.length + 1) chars
  return (← found.foldlM Reading.add {}).root

end GameTrainer.Toml
