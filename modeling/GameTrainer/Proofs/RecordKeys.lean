import Std.Data.String.ToNat
import GameTrainer.CheatRecord
import GameTrainer.Proofs.DocumentText
import GameTrainer.Proofs.NumeralSpelling

/-!
# The keys of records

Each field of each record has a key of its own, and the key that holds the number
of cheats is none of them. Writing cheats is a row of changes to these keys.
Main statements: the key of a field determines the record and the field; no two
of the changes are to one key; and so the document that was written holds, under
each key, what was written there.
-/

namespace GameTrainer.CheatRecord

/-- The characters of a key: the word, the number, the line, and the field. -/
theorem toList_key (index : Nat) (field : String) :
    (key index field).toList =
      ("cheat".toList ++ (toString index).toList) ++ '_' :: field.toList := by
  have hline : "_".toList = ['_'] := rfl
  rw [key, String.toList_append, String.toList_append, String.toList_append, hline,
    List.append_assoc, List.append_assoc, List.append_assoc, List.singleton_append]

/-- The number of a record has no line in it, nor has the word before it. -/
theorem line_not_mem (index : Nat) : '_' ∉ "cheat".toList ++ (toString index).toList := by
  rw [List.mem_append, not_or]
  constructor
  · decide
  · intro hmem
    have hdigit := Numeral.isDigit_of_mem_toString hmem
    cases hdigit

/-- The key of a field determines the record and the field. -/
theorem key_injective {first second : Nat} {field other : String}
    (h : key first field = key second other) : first = second ∧ field = other := by
  have hlist := congrArg (fun text : String => Text.splitFirst '_' text.toList) h
  simp only [toList_key, Text.splitFirst_append _ (line_not_mem _), Option.some.injEq,
    Prod.mk.injEq] at hlist
  obtain ⟨hnumber, hfield⟩ := hlist
  exact ⟨Nat.repr_injective (String.toList_inj.1 (List.append_cancel_left hnumber)),
    String.toList_inj.1 hfield⟩

/-- The key of the number of cheats is the key of no field. -/
theorem countKey_ne_key (index : Nat) (field : String) : countKey ≠ key index field := by
  intro h
  have hmem : '_' ∈ countKey.toList := by
    rw [h, toList_key]
    exact List.mem_append_right _ List.mem_cons_self
  revert hmem
  decide

/-- A character that is neither a blank nor an equals sign. -/
def isPlain (c : Char) : Bool :=
  !isBlank c && c != '='

theorem isPlain_of_isDigit {c : Char} (h : c.isDigit = true) : isPlain c = true := by
  have hne : c ≠ '=' := by
    rintro rfl
    cases h
  rw [isPlain, isBlank_of_isDigit h, Bool.not_false, Bool.true_and, bne_iff_ne]
  exact hne

/-- A key of plain characters that does not begin a comment can be written. -/
theorem writable_of_plain {key : String} (h : key.toList.all isPlain = true)
    (hcomment : ∀ rest, key.toList ≠ '#' :: rest) : Document.Writable key := by
  rw [List.all_eq_true] at h
  constructor
  · apply Text.trim_of_no_blank
    intro c hc
    have hplain := h c hc
    rw [isPlain, Bool.and_eq_true, Bool.not_eq_true'] at hplain
    exact hplain.1
  · intro hmem
    have hplain := h '=' hmem
    revert hplain
    decide
  · intro hmem
    have hplain := h '\n' hmem
    revert hplain
    decide
  · exact hcomment

/-- The key of a field of plain characters can be written. -/
theorem writable_key (index : Nat) {field : String} (h : field.toList.all isPlain = true) :
    Document.Writable (key index field) := by
  have hword : "cheat".toList.all isPlain = true := by decide
  have hdigits : (toString index).toList.all isPlain = true := by
    rw [List.all_eq_true]
    intro c hc
    exact isPlain_of_isDigit (Numeral.isDigit_of_mem_toString hc)
  apply writable_of_plain
  · rw [toList_key, List.all_append, List.all_append, List.all_cons, hword, hdigits, h]
    decide
  · intro rest heq
    rw [toList_key] at heq
    have hhead := congrArg List.head? heq
    revert hhead
    simp

theorem writable_countKey : Document.Writable countKey := by
  apply writable_of_plain
  · decide
  · intro rest heq
    have hhead := congrArg List.head? heq
    revert hhead
    simp [countKey]

/-! ## What is written -/

/-- The changes that put one cheat's record into a document. -/
def recordChanges (index : Nat) (cheat : Cheat) : List (String × Option String) :=
  (key index "desc", cheat.description) ::
    (cheatFields cheat).map fun field => (key index field.1, some field.2)

/-- The changes that put cheats into a document. -/
def changes (cheats : List Cheat) : List (String × Option String) :=
  (countKey, some (toString cheats.length)) ::
    cheats.zipIdx.flatMap fun entry => recordChanges entry.2 entry.1

/-- Putting a record into a document is a row of changes. -/
theorem writeCheat_eq (document : Document) (index : Nat) (cheat : Cheat) :
    writeCheat document index cheat = document.changeAll (recordChanges index cheat) := by
  unfold writeCheat
  dsimp only
  rw [Document.setAll_eq_changeAll, List.map_map, recordChanges, Document.changeAll,
    Document.changeAll, List.foldl_cons]
  cases cheat.description <;> rfl

/-- Putting cheats into a document is a row of changes. -/
theorem writeAll_eq (document : Document) (cheats : List Cheat) :
    writeAll document cheats = document.changeAll (changes cheats) := by
  rw [writeAll, changes, Document.changeAll, List.foldl_cons, List.foldl_flatMap]
  simp only [writeCheat_eq]
  rfl

/-- The names of all fields of a record. -/
def fieldNames : List String :=
  "desc" :: (cheatFields (Cheat.blank 0 .trainer)).map Prod.fst

theorem nodup_fieldNames : fieldNames.Nodup := by
  decide +kernel

/-- The names of fields are plain. -/
theorem plain_fieldNames : (fieldNames.all fun field => field.toList.all isPlain) = true := by
  decide +kernel

/-- A record has some of the fields, in their order. -/
theorem sublist_fieldNames (cheat : Cheat) :
    ("desc" :: (cheatFields cheat).map Prod.fst).Sublist fieldNames := by
  obtain ⟨index, description, enabled, effect⟩ := cheat
  cases effect with
  | code text => exact (List.sublist_append_left ["desc", "code", "enable", "handler"] _)
  | patch patch => exact List.Sublist.refl _

theorem keys_recordChanges (index : Nat) (cheat : Cheat) :
    (recordChanges index cheat).map Prod.fst =
      ("desc" :: (cheatFields cheat).map Prod.fst).map (key index) := by
  rw [recordChanges, List.map_cons, List.map_cons, List.map_map, List.map_map]
  rfl

/-- Each key that is changed is that of the number of cheats, or that of a field. -/
theorem mem_keys_changes {cheats : List Cheat} {changed : String}
    (h : changed ∈ (changes cheats).map Prod.fst) :
    changed = countKey ∨ ∃ index, ∃ field ∈ fieldNames, changed = key index field := by
  rw [changes, List.map_cons, List.mem_cons, List.map_flatMap, List.mem_flatMap] at h
  obtain rfl | ⟨entry, _, hentry⟩ := h
  · exact Or.inl rfl
  · rw [keys_recordChanges, List.mem_map] at hentry
    obtain ⟨field, hfield, rfl⟩ := hentry
    exact Or.inr ⟨entry.2, field, (sublist_fieldNames entry.1).subset hfield, rfl⟩

/-- No two changes are to one key. -/
theorem nodup_changes (cheats : List Cheat) : ((changes cheats).map Prod.fst).Nodup := by
  rw [changes, List.map_cons, List.nodup_cons, List.map_flatMap]
  simp only [keys_recordChanges]
  constructor
  · intro hmem
    obtain ⟨entry, _, hentry⟩ := List.mem_flatMap.1 hmem
    obtain ⟨field, _, heq⟩ := List.mem_map.1 hentry
    exact countKey_ne_key entry.2 field heq.symm
  · rw [List.Nodup, List.pairwise_flatMap]
    constructor
    · intro entry _
      rw [List.pairwise_map]
      refine List.Pairwise.imp ?_ (nodup_fieldNames.sublist (sublist_fieldNames entry.1))
      intro field other hne heq
      exact hne (key_injective heq).2
    · have hplaces : (cheats.zipIdx.map Prod.snd).Nodup := by
        rw [List.zipIdx_map_snd]
        exact List.nodup_range'
      rw [List.Nodup, List.pairwise_map] at hplaces
      refine hplaces.imp ?_
      intro first second hne x hx y hy heq
      obtain ⟨field, _, rfl⟩ := List.mem_map.1 hx
      obtain ⟨other, _, rfl⟩ := List.mem_map.1 hy
      exact hne (key_injective heq).1

/-- The fields that a document has for a record are those of a cheat. -/
structure Records (fields : Fields) (cheat : Cheat) : Prop where
  /-- The description, on one line, if there is one. -/
  description : fields "desc" = cheat.description.map Document.flatten
  /-- The other fields, each on one line. -/
  values : ∀ field ∈ cheatFields cheat, fields field.1 = some (Document.flatten field.2)

/-- A document that cheats were put into has the record of each at its place. -/
theorem records_writeAll {document : Document} (h : document.Lawful) {cheats : List Cheat}
    {index : Nat} {cheat : Cheat} (hcheat : cheats[index]? = some cheat) :
    Records (fields (writeAll document cheats) index) cheat := by
  have hmem : ∀ change ∈ recordChanges index cheat, change ∈ changes cheats := by
    intro change hchange
    rw [changes, List.mem_cons, List.mem_flatMap]
    exact Or.inr ⟨(cheat, index), List.mk_mem_zipIdx_iff_getElem?.2 hcheat, hchange⟩
  have hn := nodup_changes cheats
  constructor
  · rw [fields, writeAll_eq]
    exact h.get?_changeAll_of_mem hn (hmem _ List.mem_cons_self)
  · intro field hfield
    rw [fields, writeAll_eq]
    have hchange : (key index field.1, some field.2) ∈ recordChanges index cheat :=
      List.mem_cons_of_mem _ (List.mem_map.2 ⟨field, hfield, rfl⟩)
    exact h.get?_changeAll_of_mem hn (hmem _ hchange)

/-- A document that cheats were put into has their number. -/
theorem get?_countKey_writeAll {document : Document} (h : document.Lawful) (cheats : List Cheat) :
    (writeAll document cheats).get? countKey =
      some (Document.flatten (toString cheats.length)) := by
  have hchange : (countKey, some (toString cheats.length)) ∈ changes cheats := List.mem_cons_self
  rw [writeAll_eq]
  exact h.get?_changeAll_of_mem (nodup_changes cheats) hchange

theorem lawful_writeAll {document : Document} (h : document.Lawful) (cheats : List Cheat) :
    (writeAll document cheats).Lawful := by
  rw [writeAll_eq]
  exact h.changeAll (changes cheats)

/-- A document that cheats were put into has at least as many keys as there are cheats. -/
theorem length_le_size_writeAll {document : Document} (h : document.Lawful)
    (cheats : List Cheat) : cheats.length ≤ (writeAll document cheats).size := by
  have hlawful := lawful_writeAll h cheats
  have hnodup : ((List.range cheats.length).map fun index => key index "enable").Nodup := by
    rw [List.Nodup, List.pairwise_map]
    refine List.nodup_range.imp ?_
    intro first second hne heq
    exact hne (key_injective heq).1
  have hsubset : ((List.range cheats.length).map fun index => key index "enable") ⊆
      (writeAll document cheats).keys := by
    intro found hfound
    obtain ⟨index, hindex, rfl⟩ := List.mem_map.1 hfound
    have hcheat := List.getElem?_eq_getElem (List.mem_range.1 hindex)
    have hvalue := (records_writeAll h hcheat).values ("enable", _)
      (List.mem_cons_of_mem _ List.mem_cons_self)
    exact hlawful.mem_keys_iff.2 ⟨_, hvalue⟩
  have hlength := hnodup.length_le_of_subset hsubset
  rw [List.length_map, List.length_range, Document.keys, List.length_map] at hlength
  exact hlength

/-- Every key of a document that cheats were put into can be written, when each key
that it had before can. -/
theorem writable_keys_writeAll {document : Document} (h : document.Lawful)
    (hk : ∀ found ∈ document.keys, Document.Writable found) (cheats : List Cheat) :
    ∀ found ∈ (writeAll document cheats).keys, Document.Writable found := by
  intro found hfound
  by_cases hchanged : found ∈ (changes cheats).map Prod.fst
  · obtain rfl | ⟨index, field, hfield, rfl⟩ := mem_keys_changes hchanged
    · exact writable_countKey
    · exact writable_key index (List.all_eq_true.1 plain_fieldNames field hfield)
  · rw [writeAll_eq, (h.changeAll _).mem_keys_iff, h.get?_changeAll_of_not_mem hchanged,
      ← h.mem_keys_iff] at hfound
    exact hk found hfound

end GameTrainer.CheatRecord
