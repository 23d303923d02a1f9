import GameTrainer.Proofs.DocumentMap
import GameTrainer.Proofs.TextSpelling

/-!
# Documents through text

A document is written line by line, each key with its value in quotes, and read
by a parser that trims, cuts at the first equals sign and takes one pair of
quotes off. Main statements: the line of an entry is read back as that entry,
whatever its value holds, when its key can stand at the beginning of a line; and
the text of a lawful document with such keys is read back as a document with the
same entries.
-/

namespace GameTrainer

namespace Text

/-- A first piece that ends at a separator is split off. -/
theorem splitAll_append {separator : Char} {piece : List Char} (rest : List Char)
    (h : separator ∉ piece) :
    splitAll separator (piece ++ separator :: rest) = piece :: splitAll separator rest := by
  induction piece with
  | nil => rw [List.nil_append, splitAll, if_pos rfl]
  | cons c piece ih =>
    rw [List.mem_cons, not_or] at h
    rw [List.cons_append, splitAll, if_neg fun heq => h.1 heq.symm, ih h.2]

/-- Lines that are each ended by a line feed are split into themselves, and an empty
last line. -/
theorem lines_flatMap {rows : List (List Char)} (h : ∀ row ∈ rows, '\n' ∉ row) :
    lines (rows.flatMap (· ++ ['\n'])) = rows ++ [[]] := by
  induction rows with
  | nil => rfl
  | cons row rest ih =>
    have hrest := ih fun other ho => h other (List.mem_cons_of_mem row ho)
    rw [lines] at hrest ⊢
    rw [List.flatMap_cons, List.append_assoc, List.singleton_append,
      splitAll_append _ (h row List.mem_cons_self), hrest, List.cons_append]

end Text

namespace Document

/-- A key that can stand at the beginning of a line: without blanks at its ends,
equals signs and line feeds, and no comment. -/
structure Writable (key : String) : Prop where
  /-- It has no blanks at its ends. -/
  trimmed : Text.trim key.toList = key.toList
  /-- It has no equals sign. -/
  noEquals : '=' ∉ key.toList
  /-- It has no line feed. -/
  noLineFeed : '\n' ∉ key.toList
  /-- It does not begin a comment. -/
  noComment : ∀ rest, key.toList ≠ '#' :: rest

/-- The line of an entry, without the line feed. -/
def line (entry : String × String) : List Char :=
  entry.1.toList ++ ' ' :: '=' :: ' ' :: '\x22' :: (entry.2.toList ++ ['\x22'])

/-- The text of a document is its lines, each ended by a line feed. -/
theorem toList_render (document : Document) :
    document.render.toList = (document.toList.map line).flatMap (· ++ ['\n']) := by
  rw [render, String.toList_join, List.flatMap_map, List.flatMap_map]
  congr 1
  funext entry
  simp [renderLine, line, String.toList_append]

/-- Quotes around a text are taken off, whatever it holds. -/
theorem unquote_quoted (text : List Char) : unquote ('\x22' :: (text ++ ['\x22'])) = text := by
  rw [unquote]
  simp

/-- What stands in front of the equals sign of a line is the key, but for a blank. -/
theorem exists_front {key : String} (h : Writable key) (rest : List Char) :
    ∃ front, Text.trimStart (key.toList ++ ' ' :: '=' :: rest) = front ++ '=' :: rest ∧
      '=' ∉ front ∧ Text.trim front = key.toList ∧ ∀ later, front ≠ '#' :: later := by
  have hblank : isBlank ' ' = true := by decide
  have hequals : isBlank '=' = false := by decide
  obtain ⟨htrim, hno, _, hcomment⟩ := h
  cases hkey : key.toList with
  | nil =>
    refine ⟨[], ?_, List.not_mem_nil, rfl, fun later heq => by cases heq⟩
    rw [List.nil_append, Text.trimStart, List.dropWhile_cons_of_pos hblank]
    exact Text.trimStart_eq_self hequals
  | cons c later =>
    rw [hkey] at htrim hno hcomment
    refine ⟨c :: later ++ [' '], ?_, ?_, ?_, ?_⟩
    · rw [List.append_assoc, List.singleton_append, List.cons_append]
      exact Text.trimStart_eq_self (Text.isBlank_head htrim)
    · rw [List.mem_append, List.mem_singleton, not_or]
      exact ⟨hno, by decide⟩
    · exact Text.trim_of_padded (Text.padded_append_blank _ hblank) htrim
    · intro other heq
      rw [List.cons_append, List.cons.injEq] at heq
      exact hcomment later (by rw [heq.1])

/-- The line of an entry is read back as the entry, whatever its value holds. -/
theorem readLine?_line {entry : String × String} (h : Writable entry.1) :
    readLine? (line entry) = some entry := by
  have hquote : isBlank '\x22' = false := by decide
  have hblank : isBlank ' ' = true := by decide
  generalize hquoted : '\x22' :: (entry.2.toList ++ ['\x22']) = quoted
  obtain ⟨front, hstart, hno, hkey, hcomment⟩ := exists_front h (' ' :: quoted)
  have hsplit := Text.splitFirst_append (' ' :: quoted) hno
  have hvalue : Text.trim (' ' :: quoted) = quoted := by
    rw [Text.trim, Text.trimStart, List.dropWhile_cons_of_pos hblank, ← hquoted,
      List.dropWhile_cons_of_neg (Bool.eq_false_iff.1 hquote), ← List.cons_append]
    exact Text.trimEnd_eq_self hquote
  have htrim : Text.trim (line entry) = front ++ '=' :: ' ' :: quoted := by
    rw [Text.trim, line, hquoted, hstart, ← hquoted]
    have hshape : front ++ '=' :: ' ' :: '\x22' :: (entry.2.toList ++ ['\x22']) =
        (front ++ '=' :: ' ' :: '\x22' :: entry.2.toList) ++ ['\x22'] := by
      simp only [List.append_assoc, List.cons_append]
    rw [hshape]
    exact Text.trimEnd_eq_self hquote
  rw [readLine?, htrim]
  split
  · rename_i hnil
    cases front <;> cases hnil
  · rename_i later heq
    cases front with
    | nil => cases heq
    | cons c other =>
      rw [List.cons_append, List.cons.injEq] at heq
      exact absurd (by rw [heq.1]) (hcomment other)
  · rw [hsplit, Option.map_some]
    dsimp only
    rw [hkey, hvalue, ← hquoted, unquote_quoted, String.ofList_toList,
      String.ofList_toList]

/-- The lines of entries are read back as the entries. -/
theorem filterMap_readLine?_line {entries : List (String × String)}
    (h : ∀ entry ∈ entries, Writable entry.1) :
    (entries.map line).filterMap readLine? = entries := by
  induction entries with
  | nil => rfl
  | cons entry rest ih =>
    rw [List.map_cons, List.filterMap_cons_some (readLine?_line (h entry List.mem_cons_self)),
      ih fun other ho => h other (List.mem_cons_of_mem entry ho)]

/-- Setting keys that are new and do not repeat adds them at the end, in order. -/
theorem Lawful.toList_setAll {document : Document} (h : document.Lawful)
    {pairs : List (String × String)} (hn : (document.keys ++ pairs.map Prod.fst).Nodup)
    (hf : ∀ pair ∈ pairs, flatten pair.2 = pair.2) :
    (document.setAll pairs).toList = document.toList ++ pairs := by
  induction pairs generalizing document with
  | nil => rw [List.append_nil, setAll, List.foldl_nil]
  | cons pair rest ih =>
    have hnew : pair.1 ∉ document.keys := by
      intro hmem
      rw [List.nodup_append] at hn
      exact hn.2.2 pair.1 hmem pair.1 List.mem_cons_self rfl
    have hset : (document.set pair.1 pair.2).toList = document.toList ++ [pair] := by
      rw [h.toList_set_of_not_mem pair.2 hnew, hf pair List.mem_cons_self]
    have hkeys : (document.set pair.1 pair.2).keys = document.keys ++ [pair.1] := by
      rw [h.keys_set, if_neg hnew]
    have hnext := ih (h.set pair.1 pair.2) (by
      rw [hkeys, List.append_assoc]
      exact hn) fun other ho => hf other (List.mem_cons_of_mem pair ho)
    rw [hset, List.append_assoc] at hnext
    exact hnext

/-- The text of a lawful document whose keys can be written is read back as a document
with the same entries. -/
theorem Lawful.toList_parse_render {document : Document} (h : document.Lawful)
    (hk : ∀ key ∈ document.keys, Writable key) :
    (parse document.render).toList = document.toList := by
  have hkey : ∀ entry ∈ document.toList, Writable entry.1 := fun entry hentry =>
    hk entry.1 (List.mem_map.2 ⟨entry, hentry, rfl⟩)
  have hrow : ∀ row ∈ document.toList.map line, '\n' ∉ row := by
    intro row hrow hmem
    obtain ⟨entry, hentry, rfl⟩ := List.mem_map.1 hrow
    have hvalue : '\n' ∉ entry.2.toList := by
      intro hin
      rw [← h.flat entry hentry] at hin
      exact (ne_of_mem_flatten hin).2 rfl
    rw [line, List.mem_append] at hmem
    obtain hin | hin := hmem
    · exact (hkey entry hentry).noLineFeed hin
    · simp [hvalue] at hin
  have hlines : (Text.lines document.render.toList).filterMap readLine? = document.toList := by
    rw [toList_render, Text.lines_flatMap hrow, List.filterMap_append,
      filterMap_readLine?_line hkey]
    exact List.append_nil _
  have hall : (setAll {} document.toList).toList = ({} : Document).toList ++ document.toList :=
    lawful_empty.toList_setAll h.nodup_keys h.flat
  rw [parse, hlines, hall]
  rfl

end Document

end GameTrainer
