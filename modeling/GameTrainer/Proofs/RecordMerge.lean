import GameTrainer.Proofs.ParsedKeys
import GameTrainer.Proofs.RecordRoundTrip

/-!
# Cheats in a file that holds other things

Saving into a file that is there puts the records of the cheats over what the file holds.
Main statements: changes to different keys keep the keys that they do not remove in their
order and put new ones behind them; and whatever a file holds, the cheats that are put
into it are read back, from the document and from its text, while every key that they do
not write or remove keeps its value and its place among the old ones.
-/

namespace GameTrainer

namespace Document

/-! ## The order of keys -/

/-- One of the changes removes a key. -/
def removes (changes : List (String × Option String)) (key : String) : Bool :=
  changes.contains (key, none)

@[simp] theorem removes_cons_none (key found : String) (rest : List (String × Option String)) :
    removes ((key, none) :: rest) found = (found == key || removes rest found) := by
  rw [removes, List.contains_cons]
  congr 1
  exact Bool.and_true _

@[simp] theorem removes_cons_some (key value found : String)
    (rest : List (String × Option String)) :
    removes ((key, some value) :: rest) found = removes rest found := by
  rw [removes, List.contains_cons]
  exact congrArg (· || removes rest found) (Bool.and_false _)

/-- A key that no change names is not removed. -/
theorem removes_eq_false {changes : List (String × Option String)} {key : String}
    (h : key ∉ changes.map Prod.fst) : removes changes key = false := by
  rw [removes, List.contains_eq_mem, decide_eq_false_iff_not]
  exact fun hmem => h (List.mem_map.2 ⟨_, hmem, rfl⟩)

/-- Changes to different keys keep the keys that they do not remove in their order. What
they add comes behind, and is new. -/
theorem Lawful.keys_changeAll {document : Document} (h : document.Lawful)
    {changes : List (String × Option String)} (hn : (changes.map Prod.fst).Nodup) :
    ∃ added, (document.changeAll changes).keys =
        document.keys.filter (fun found => !removes changes found) ++ added ∧
      ∀ found ∈ added, found ∉ document.keys ∧ found ∈ changes.map Prod.fst := by
  induction changes generalizing document with
  | nil =>
    refine ⟨[], ?_, fun found hfound => by cases hfound⟩
    have hall : document.keys.filter (fun found => !removes [] found) = document.keys :=
      List.filter_eq_self.2 fun _ _ => rfl
    rw [hall, List.append_nil]
    rfl
  | cons item rest ih =>
    rw [List.map_cons, List.nodup_cons] at hn
    obtain ⟨added, hkeys, hadded⟩ := ih (h.change item) hn.2
    obtain ⟨key, _ | value⟩ := item
    · rw [Document.change, h.keys_remove] at hkeys hadded
      have hsame : (fun found => !removes ((key, none) :: rest) found) =
          fun found => !removes rest found && decide (found ≠ key) := by
        funext found
        rw [removes_cons_none, Bool.not_or, Bool.and_comm, decide_not]
        rfl
      refine ⟨added, ?_, ?_⟩
      · rw [hsame, ← List.filter_filter]
        exact hkeys
      · intro found hfound
        obtain ⟨hnot, hlater⟩ := hadded found hfound
        have hne : found ≠ key := by
          rintro rfl
          exact hn.1 hlater
        refine ⟨fun hmem => hnot (List.mem_filter.2 ⟨hmem, decide_eq_true hne⟩), ?_⟩
        exact List.mem_cons_of_mem _ hlater
    · rw [Document.change, h.keys_set] at hkeys hadded
      simp only [removes_cons_some]
      by_cases hmem : key ∈ document.keys
      · rw [if_pos hmem] at hkeys hadded
        refine ⟨added, hkeys, fun found hfound => ?_⟩
        exact (hadded found hfound).imp id (List.mem_cons_of_mem _)
      · rw [if_neg hmem] at hkeys hadded
        refine ⟨key :: added, ?_, ?_⟩
        · have hkept : [key].filter (fun found => !removes rest found) = [key] := by
            rw [List.filter_cons, removes_eq_false hn.1]
            rfl
          rw [List.filter_append, hkept, List.append_assoc] at hkeys
          exact hkeys
        · intro found hfound
          rcases List.mem_cons.1 hfound with rfl | hlater
          · exact ⟨hmem, List.mem_cons_self⟩
          · refine (hadded found hlater).imp (fun hnot hold => hnot ?_) (List.mem_cons_of_mem _)
            exact List.mem_append_left _ hold

end Document

namespace CheatRecord

/-! ## What a document keeps -/

/-- Putting cheats into a document removes the keys of the descriptions that they lack. -/
theorem removes_changes_iff {cheats : List Cheat} {found : String} :
    Document.removes (changes cheats) found = true ↔
      ∃ index cheat, cheats[index]? = some cheat ∧ cheat.description = none ∧
        found = key index "desc" := by
  rw [Document.removes, List.contains_iff_mem, changes, List.mem_cons, List.mem_flatMap]
  constructor
  · rintro (hcount | ⟨⟨cheat, index⟩, hentry, hchange⟩)
    · cases hcount
    · rw [recordChanges, List.mem_cons] at hchange
      rcases hchange with hdescription | hfield
      · rw [Prod.mk.injEq] at hdescription
        exact ⟨index, cheat, List.mk_mem_zipIdx_iff_getElem?.1 hentry, hdescription.2.symm,
          hdescription.1⟩
      · obtain ⟨field, _, heq⟩ := List.mem_map.1 hfield
        cases heq
  · rintro ⟨index, cheat, hcheat, hnone, rfl⟩
    refine Or.inr ⟨(cheat, index), List.mk_mem_zipIdx_iff_getElem?.2 hcheat, ?_⟩
    rw [recordChanges, hnone]
    exact List.mem_cons_self

/-- The old keys come first, in their old order; only the keys of missing descriptions are
taken out. -/
theorem keys_writeAll {document : Document} (h : document.Lawful) (cheats : List Cheat) :
    ∃ kept added, (writeAll document cheats).keys = kept ++ added ∧
      kept.Sublist document.keys ∧
      (∀ found, found ∈ kept ↔ found ∈ document.keys ∧
        ∀ index cheat, cheats[index]? = some cheat → cheat.description = none →
          found ≠ key index "desc") ∧
      ∀ found ∈ added, found ∉ document.keys := by
  obtain ⟨added, hkeys, hadded⟩ := h.keys_changeAll (nodup_changes cheats)
  rw [← writeAll_eq] at hkeys
  refine ⟨_, added, hkeys, List.filter_sublist, ?_, fun found hfound => (hadded found hfound).1⟩
  intro found
  rw [List.mem_filter, Bool.not_eq_true', ← Bool.not_eq_true, removes_changes_iff]
  simp only [not_exists, not_and, ne_eq]

/-- A key that neither holds the number of cheats nor is written or removed for one of them
keeps its value. -/
theorem get?_writeAll_of_ne {document : Document} (h : document.Lawful) {cheats : List Cheat}
    {found : String} (hcount : found ≠ countKey)
    (hfields : ∀ index cheat, cheats[index]? = some cheat →
      ∀ field ∈ "desc" :: (cheatFields cheat).map Prod.fst, found ≠ key index field) :
    (writeAll document cheats).get? found = document.get? found := by
  rw [writeAll_eq]
  apply h.get?_changeAll_of_not_mem
  rw [changes, List.map_cons, List.map_flatMap, List.mem_cons, not_or]
  refine ⟨hcount, fun hmem => ?_⟩
  obtain ⟨⟨cheat, index⟩, hentry, hfound⟩ := List.mem_flatMap.1 hmem
  rw [keys_recordChanges] at hfound
  obtain ⟨field, hfield, rfl⟩ := List.mem_map.1 hfound
  exact hfields index cheat (List.mk_mem_zipIdx_iff_getElem?.1 hentry) field hfield rfl

/-- Cheats that are put into the document of any text, whatever records and other keys it
holds, are read back, from the document and from its text. The text keeps all that the
document holds. Every key that is neither the number of cheats nor written or removed for
one of them keeps its value, and all old keys but those of missing descriptions stay, in
their old order and in front of the new ones. -/
theorem readAll_writeAll_parse (text : String) {cheats : List Cheat} (hne : cheats ≠ [])
    (hlt : cheats.length < UInt32.size) :
    let document := Document.parse text
    let merged := writeAll document cheats
    readAll merged = .ok (cheats.mapIdx Cheat.saved) ∧
      readAll (Document.parse merged.render) = .ok (cheats.mapIdx Cheat.saved) ∧
      (Document.parse merged.render).toList = merged.toList ∧
      (∀ found, found ≠ countKey →
        (∀ index cheat, cheats[index]? = some cheat →
          ∀ field ∈ "desc" :: (cheatFields cheat).map Prod.fst, found ≠ key index field) →
        merged.get? found = document.get? found) ∧
      ∃ kept added, merged.keys = kept ++ added ∧ kept.Sublist document.keys ∧
        (∀ found, found ∈ kept ↔ found ∈ document.keys ∧
          ∀ index cheat, cheats[index]? = some cheat → cheat.description = none →
            found ≠ key index "desc") ∧
        ∀ found ∈ added, found ∉ document.keys := by
  intro document merged
  have hdocument : document.Lawful := Document.lawful_parse text
  have hmerged : merged.Lawful := lawful_writeAll hdocument cheats
  have hwritable : ∀ found ∈ merged.keys, Document.Writable found :=
    writable_keys_writeAll hdocument (Document.writable_keys_parse text) cheats
  have hread : readAll merged = .ok (cheats.mapIdx Cheat.saved) :=
    readAll_writeAll hdocument hne hlt
  refine ⟨hread, ?_, hmerged.toList_parse_render hwritable,
    fun found hcount hfields => get?_writeAll_of_ne hdocument hcount hfields,
    keys_writeAll hdocument cheats⟩
  rw [readAll_parse_render hmerged hwritable]
  exact hread

/-- A code without a description is put into a file with more records than one, an older
description and patch under its place, and a key of someone else. -/
theorem readAll_writeAll_parse_stale :
    let text := "# list\ncheats = 9\ncheat0_desc = old\nauthor = me\ncheat0_endian = 1\n" ++
      "cheat0_value = 5\ncheat7_code = \x22x y\x22\n"
    let cheats : List Cheat := [{ index := 4, effect := .code "A\nB" }]
    let merged := writeAll (Document.parse text) cheats
    readAll (Document.parse merged.render) = .ok [{ effect := .code "A B" }] ∧
      merged.get? "author" = some "me" ∧ merged.get? "cheat0_endian" = some "1" ∧
      merged.get? "cheat7_code" = some "x y" := by
  intro text cheats merged
  let held : List (String × String) :=
    [("cheats", "9"), ("cheat0_desc", "old"), ("author", "me"), ("cheat0_endian", "1"),
      ("cheat0_value", "5"), ("cheat7_code", "x y")]
  have hlines : (Text.lines text.toList).filterMap Document.readLine? = held := by
    decide +kernel
  have hheld : (Document.parse text).toList = held := by
    rw [Document.parse, hlines]
    exact Document.lawful_empty.toList_setAll (by decide +kernel) (by decide +kernel)
  have hsaved : cheats.mapIdx Cheat.saved = [{ effect := .code "A B" }] := by
    decide +kernel
  have hne : cheats ≠ [] := List.cons_ne_nil _ _
  obtain ⟨_, hread, _, hkept, _⟩ := readAll_writeAll_parse text hne (by decide)
  have hvalue : ∀ found value, (found, value) ∈ held → found ≠ countKey →
      (∀ field ∈ ["desc", "code", "enable", "handler"], found ≠ key 0 field) →
      merged.get? found = some value := by
    intro found value hmem hcount hfields
    rw [← hheld, ← (Document.lawful_parse text).get?_eq_some_iff] at hmem
    rw [← hmem]
    apply hkept found hcount
    intro index cheat hcheat
    cases index with
    | zero =>
      cases hcheat
      exact hfields
    | succ index => cases hcheat
  refine ⟨hread.trans (congrArg Except.ok hsaved), ?_, ?_, ?_⟩
  · exact hvalue "author" "me" (by decide) (by decide) (by decide +kernel)
  · exact hvalue "cheat0_endian" "1" (by decide) (by decide) (by decide +kernel)
  · exact hvalue "cheat7_code" "x y" (by decide) (by decide) (by decide +kernel)

end CheatRecord

end GameTrainer
