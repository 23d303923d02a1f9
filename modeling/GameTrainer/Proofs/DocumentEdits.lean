import Mathlib.Data.List.Induction
import GameTrainer.Proofs.ParsedKeys

/-!
# Edited documents

A document is read from a text, keys are set and removed, and it is read again from its own
text. Main statements: whatever is done to it, a document is an ordered map whose index finds
each key at its place; the value of a key is the last one that it was given since the
document was read; and a document into which only keys were set that can stand at the
beginning of a line is read back from its own text as it is, so that reading it again loses
nothing.
-/

namespace GameTrainer.Document

/-! ## Ordered maps -/

/-- A document that is a map in the order in which its keys first came, with an index that
finds each key at its place. -/
structure OrderedMap (document : Document) : Prop where
  /-- No key stands twice. -/
  distinct : document.keys.Nodup
  /-- The index finds each key at its place, and nothing else. -/
  found_iff : ∀ (key : String) (place : Nat),
    document.places[key]? = some place ↔ document.keys[place]? = some key
  /-- No place in the index lies behind the entries. -/
  inside : ∀ (key : String) (place : Nat),
    document.places[key]? = some place → place < document.entries.size
  /-- Each value stands on one line. -/
  oneLine : ∀ entry ∈ document.toList, ∀ c ∈ entry.2.toList, c ≠ '\r' ∧ c ≠ '\n'
  /-- The value of a key is the one beside it. -/
  value_iff : ∀ key value, document.get? key = some value ↔ (key, value) ∈ document.toList
  /-- The document has the keys that stand in it. -/
  contains_iff : ∀ key, document.contains key = true ↔ key ∈ document.keys
  /-- A key that is there takes a new value, on one line, where it stands. -/
  set_present : ∀ key value, key ∈ document.keys →
    (document.set key value).toList =
      document.toList.map fun entry => if entry.1 = key then (key, flatten value) else entry
  /-- A new key comes to the end, with its value on one line. -/
  set_absent : ∀ key value, key ∉ document.keys →
    (document.set key value).toList = document.toList ++ [(key, flatten value)]
  /-- A key that is taken out gives the value that it had. -/
  pop_value : ∀ key value, (document.pop key).1 = some value ↔ (key, value) ∈ document.toList
  /-- All other keys stay as they are, in their order. -/
  pop_rest : ∀ key,
    (document.pop key).2.toList = document.toList.filter fun entry => entry.1 ≠ key

/-- A lawful document is an ordered map. -/
theorem Lawful.orderedMap {document : Document} (h : document.Lawful) : document.OrderedMap where
  distinct := h.nodup_keys
  found_iff := by
    intro key place
    rw [h.indexed, keys, toList, List.getElem?_map, Array.getElem?_toList]
  inside := fun _ _ => h.indexed.lt_size
  oneLine := by
    intro entry hentry c hc
    rw [← h.flat entry hentry] at hc
    exact ne_of_mem_flatten hc
  value_iff := fun _ _ => h.get?_eq_some_iff
  contains_iff := by
    intro key
    rw [contains, Std.HashMap.contains_eq_isSome_getElem?, Option.isSome_iff_ne_none, ne_eq,
      h.indexed.places_eq_none_iff, Decidable.not_not]
  set_present := fun _ value hkey => h.toList_set_of_mem value hkey
  set_absent := fun _ value hkey => h.toList_set_of_not_mem value hkey
  pop_value := by
    intro key value
    rw [fst_pop]
    exact h.get?_eq_some_iff
  pop_rest := h.toList_remove

/-! ## Edits -/

/-- What can be done to a document. -/
inductive Edit where
  /-- A key is given a value. -/
  | set (key value : String)
  /-- A key is taken out. -/
  | remove (key : String)
  /-- The document is read again from its own text. -/
  | reread

/-- The document after an edit. -/
def edit (document : Document) : Edit → Document
  | .set key value => document.set key value
  | .remove key => (document.pop key).2
  | .reread => parse document.render

/-- The document that was read from a text, after edits. -/
def edited (text : String) (edits : List Edit) : Document :=
  edits.foldl edit (parse text)

theorem edited_concat (text : String) (edits : List Edit) (last : Edit) :
    edited text (edits ++ [last]) = (edited text edits).edit last := by
  rw [edited, List.foldl_append]
  rfl

theorem Lawful.edit {document : Document} (h : document.Lawful) (last : Edit) :
    (document.edit last).Lawful := by
  cases last with
  | set key value => exact h.set key value
  | remove key => exact h.remove key
  | reread => exact lawful_parse _

theorem lawful_edited (text : String) (edits : List Edit) : (edited text edits).Lawful := by
  induction edits using List.reverseRecOn with
  | nil => exact lawful_parse text
  | append_singleton earlier last ih =>
    rw [edited_concat]
    exact ih.edit last

/-! ## The last value of a key -/

/-- The value that the last change to a key gave it, if any did and did not take it out. -/
def latest (key : String) (changes : List (String × Option String)) : Option String :=
  (changes.filter fun change => change.1 = key).getLast?.bind Prod.snd

theorem latest_concat_self (key : String) (changes : List (String × Option String))
    (value : Option String) : latest key (changes ++ [(key, value)]) = value := by
  rw [latest, List.filter_append, List.filter_cons, if_pos (decide_eq_true rfl), List.filter_nil,
    List.getLast?_concat]
  rfl

theorem latest_concat_of_ne {key : String} {last : String × Option String}
    (changes : List (String × Option String)) (hne : last.1 ≠ key) :
    latest key (changes ++ [last]) = latest key changes := by
  rw [latest, List.filter_append, List.filter_cons, if_neg (by simp [hne]), List.filter_nil,
    List.append_nil]
  rfl

theorem changeAll_concat (document : Document) (changes : List (String × Option String))
    (last : String × Option String) :
    document.changeAll (changes ++ [last]) = (document.changeAll changes).change last := by
  rw [changeAll, List.foldl_append]
  rfl

/-- A change gives the value of its key, and the others keep the last that they were given. -/
theorem Lawful.get?_change_latest {document : Document} (h : document.Lawful)
    {changes : List (String × Option String)}
    (hvalue : ∀ key, document.get? key = (latest key changes).map flatten)
    (last : String × Option String) (key : String) :
    (document.change last).get? key = (latest key (changes ++ [last])).map flatten := by
  by_cases hkey : last.1 = key
  · subst hkey
    rw [latest_concat_self last.1 changes last.2]
    exact h.get?_change_self last.1 last.2
  · rw [latest_concat_of_ne changes hkey, h.get?_change_of_ne hkey]
    exact hvalue key

/-- Changes to the empty document give each key the value of the last change to it. -/
theorem get?_changeAll_empty (changes : List (String × Option String)) (key : String) :
    (changeAll {} changes).get? key = (latest key changes).map flatten := by
  induction changes using List.reverseRecOn generalizing key with
  | nil =>
    have hplace : ({} : Document).places[key]? = none := Std.HashMap.getElem?_empty
    rw [changeAll, List.foldl_nil, get?, hplace]
    rfl
  | append_singleton earlier last ih =>
    rw [changeAll_concat]
    exact (lawful_empty.changeAll earlier).get?_change_latest ih last key

/-- The changes that reading a text makes: each line with a key sets it. -/
def readings (text : String) : List (String × Option String) :=
  ((Text.lines text.toList).filterMap readLine?).map fun pair => (pair.1, some pair.2)

theorem parse_eq_changeAll (text : String) : parse text = changeAll {} (readings text) :=
  setAll_eq_changeAll {} _

/-- The changes that an edit makes besides those of reading. -/
def Edit.changes : Edit → List (String × Option String)
  | .set key value => [(key, some value)]
  | .remove key => [(key, none)]
  | .reread => []

/-- The changes since a document was last read, after an edit to the document that they
made. Reading makes it anew from its lines. -/
def record (changes : List (String × Option String)) : Edit → List (String × Option String)
  | .reread => readings (changeAll {} changes).render
  | other => changes ++ other.changes

/-- The changes since a document was last read, those of its reading among them. -/
def history (text : String) (edits : List Edit) : List (String × Option String) :=
  edits.foldl record (readings text)

theorem history_concat (text : String) (edits : List Edit) (last : Edit) :
    history text (edits ++ [last]) = record (history text edits) last := by
  rw [history, List.foldl_append]
  rfl

/-- A document is what the changes since it was last read made of the empty one. -/
theorem edited_eq_changeAll (text : String) (edits : List Edit) :
    edited text edits = changeAll {} (history text edits) := by
  induction edits using List.reverseRecOn with
  | nil => exact parse_eq_changeAll text
  | append_singleton earlier last ih =>
    rw [edited_concat, history_concat, ih]
    cases last with
    | set key value => exact (changeAll_concat {} _ (key, some value)).symm
    | remove key => exact (changeAll_concat {} _ (key, none)).symm
    | reread => exact parse_eq_changeAll _

/-! ## Reading a document again -/

/-- A lawful document is read back from its text as it is just when all its keys can stand
at the beginning of a line. -/
theorem Lawful.toList_parse_render_iff {document : Document} (h : document.Lawful) :
    (parse document.render).toList = document.toList ↔ ∀ key ∈ document.keys, Writable key := by
  constructor
  · intro hsame key hkey
    rw [keys, ← hsame] at hkey
    exact writable_keys_parse _ key hkey
  · exact h.toList_parse_render

/-- Edits that set only such keys leave a document with only such keys. -/
theorem writable_keys_edited (text : String) {edits : List Edit}
    (hset : ∀ key value, Edit.set key value ∈ edits → Writable key) :
    ∀ key ∈ (edited text edits).keys, Writable key := by
  induction edits using List.reverseRecOn with
  | nil => exact writable_keys_parse text
  | append_singleton earlier last ih =>
    have hkeys := ih fun key value hmem => hset key value (List.mem_append_left _ hmem)
    rw [edited_concat]
    cases last with
    | set key value =>
      intro found hfound
      rw [edit, (lawful_edited text earlier).keys_set] at hfound
      split at hfound
      · exact hkeys found hfound
      · rcases List.mem_append.1 hfound with hold | hnew
        · exact hkeys found hold
        · rw [List.mem_singleton.1 hnew]
          exact hset key value (List.mem_append_right _ List.mem_cons_self)
    | remove key =>
      intro found hfound
      have hrest : found ∈ ((edited text earlier).remove key).keys := hfound
      rw [(lawful_edited text earlier).keys_remove] at hrest
      exact hkeys found (List.mem_filter.1 hrest).1
    | reread => exact writable_keys_parse _

/-- When only such keys are set, a key has the last value that it was given since the
document was first read, however often it was read again. -/
theorem get?_edited_of_writable (text : String) {edits : List Edit}
    (hset : ∀ key value, Edit.set key value ∈ edits → Writable key) (key : String) :
    (edited text edits).get? key =
      (latest key (readings text ++ edits.flatMap Edit.changes)).map flatten := by
  induction edits using List.reverseRecOn generalizing key with
  | nil =>
    rw [List.flatMap_nil, List.append_nil, ← get?_changeAll_empty, ← parse_eq_changeAll]
    rfl
  | append_singleton earlier last ih =>
    have hearlier : ∀ key value, Edit.set key value ∈ earlier → Writable key :=
      fun key value hmem => hset key value (List.mem_append_left _ hmem)
    have hlawful := lawful_edited text earlier
    rw [edited_concat, List.flatMap_append, List.flatMap_singleton, ← List.append_assoc]
    cases last with
    | set key value => exact hlawful.get?_change_latest (ih hearlier) (_, some value) _
    | remove key => exact hlawful.get?_change_latest (ih hearlier) (_, none) _
    | reread =>
      -- Its keys can all be read back, so that reading loses nothing.
      rw [Edit.changes, List.append_nil, ← ih hearlier]
      apply (lawful_parse _).get?_congr hlawful
      exact hlawful.toList_parse_render (writable_keys_edited text hearlier)

/-! ## Every document -/

/-- Whatever text a document was read from and whatever was done to it since, it is an
ordered map, and each key has, on one line, the last value that it was given since the
document was last read, if it was not taken out after. Where only keys were set that can
stand at the beginning of a line, this is the last value since it was first read. -/
theorem edited_ordered_map (text : String) (edits : List Edit) :
    (edited text edits).OrderedMap ∧
      (∀ key, (edited text edits).get? key = (latest key (history text edits)).map flatten) ∧
      ((∀ key value, Edit.set key value ∈ edits → Writable key) →
        ∀ key, (edited text edits).get? key =
          (latest key (readings text ++ edits.flatMap Edit.changes)).map flatten) := by
  refine ⟨(lawful_edited text edits).orderedMap, fun key => ?_, get?_edited_of_writable text⟩
  rw [edited_eq_changeAll, get?_changeAll_empty]

/-- A document that is read again twice, between a removal and a key that is empty. -/
theorem edited_ordered_map_reread_twice :
    let edits : List Edit :=
      [.set "a" "x\ny", .reread, .remove "b", .set "" "=", .reread]
    (∀ key value, Edit.set key value ∈ edits → Writable key) ∧
      (edited "a = 1\nb = 2\n" edits).OrderedMap ∧
      (edited "a = 1\nb = 2\n" edits).get? "a" = some "x y" ∧
      (edited "a = 1\nb = 2\n" edits).get? "b" = none ∧
      (edited "a = 1\nb = 2\n" edits).get? "" = some "=" := by
  intro edits
  have hset : ∀ key value, Edit.set key value ∈ edits → Writable key := by
    intro key value hmem
    have hkey : key = "a" ∨ key = "" := by
      simp only [edits, List.mem_cons, Edit.set.injEq, reduceCtorEq, List.not_mem_nil] at hmem
      tauto
    rcases hkey with rfl | rfl
    · exact ⟨by decide, by decide, by decide, fun rest h => by cases h⟩
    · exact ⟨rfl, by decide, by decide, fun rest h => by cases h⟩
  obtain ⟨hmap, _, hlast⟩ := edited_ordered_map "a = 1\nb = 2\n" edits
  refine ⟨hset, hmap, ?_, ?_, ?_⟩
  · rw [hlast hset]
    decide +kernel
  · rw [hlast hset]
    decide +kernel
  · rw [hlast hset]
    decide +kernel

/-- A document that was read from any text, and into which only keys were set that can stand
at the beginning of a line, is read back from its own text with the same entries in the same
order, whatever its values hold. -/
theorem parse_render_edited (text : String) {edits : List Edit}
    (hset : ∀ key value, Edit.set key value ∈ edits → Writable key) :
    (parse (parse text).render).toList = (parse text).toList ∧
      (parse (edited text edits).render).toList = (edited text edits).toList := by
  constructor
  · exact (lawful_parse text).toList_parse_render_iff.2 (writable_keys_parse text)
  · exact (lawful_edited text edits).toList_parse_render_iff.2 (writable_keys_edited text hset)

/-- The empty key takes a value with a quote at each end, an equals sign and a line end. -/
theorem parse_render_edited_empty_key :
    let edits : List Edit := [.set "" "\x22a\x22 = #\r\n\x22", .remove "k", .set "x y" ""]
    (∀ key value, Edit.set key value ∈ edits → Writable key) ∧
      (parse (edited "# k\nk=1\nk=\x22\x222\x22\n" edits).render).toList =
        (edited "# k\nk=1\nk=\x22\x222\x22\n" edits).toList := by
  intro edits
  have hset : ∀ key value, Edit.set key value ∈ edits → Writable key := by
    intro key value hmem
    have hkey : key = "" ∨ key = "x y" := by
      simp only [edits, List.mem_cons, Edit.set.injEq, reduceCtorEq, List.not_mem_nil] at hmem
      tauto
    rcases hkey with rfl | rfl
    · exact ⟨rfl, by decide, by decide, fun rest h => by cases h⟩
    · exact ⟨by decide, by decide, by decide, fun rest h => by cases h⟩
  exact ⟨hset, (parse_render_edited _ hset).2⟩

end GameTrainer.Document
