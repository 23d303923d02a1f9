import GameTrainer.Proofs.RecordKeys

/-!
# Cheats through a document

A record that was written from a cheat is read back as that cheat, up to what is
never saved: the index is the place of the record, the rumble has nothing to
remember, and texts stand on one line. Main statements: reading the fields of a
cheat gives the cheat; and cheats that are put into an empty document come back
from its text, in their order.
-/

namespace GameTrainer

/-- What is left of a cheat after it was saved and read back at a place. -/
def Cheat.saved (index : Nat) (cheat : Cheat) : Cheat where
  index := UInt32.ofNat index
  description := cheat.description.map Document.flatten
  enabled := cheat.enabled
  effect :=
    match cheat.effect with
    | .code text => .code (Document.flatten text)
    | .patch patch => .patch { patch with rumbleState := {} }

namespace CheatRecord

/-! ## Fields of one kind -/

/-- The text of a number stands on one line. -/
theorem flatten_toString (n : Nat) : Document.flatten (toString n) = toString n := by
  apply Document.flatten_eq_self
  intro c hc
  have hdigit := Numeral.isDigit_of_mem_toString hc
  constructor
  · rintro rfl
    cases hdigit
  · rintro rfl
    cases hdigit

/-- A number that was written is read back. -/
theorem numberOf_toString {n : Nat} (hn : n < UInt32.size) :
    numberOf (Document.flatten (toString n)) = UInt32.ofNat n := by
  rw [numberOf, flatten_toString, Numeral.word?_toString hn]
  rfl

/-- A word that was written under a field is read back, whatever a missing one means. -/
theorem numberOr_of_word {fields : Fields} {field : String} {word : UInt32} (missing : UInt32)
    (h : fields field = some (Document.flatten (toString word.toNat))) :
    numberOr fields field missing = word := by
  rw [numberOr, h, Option.map_some, Option.getD_some, numberOf_toString word.toNat_lt,
    UInt32.ofNat_toNat]

theorem number_of_word {fields : Fields} {field : String} {word : UInt32}
    (h : fields field = some (Document.flatten (toString word.toNat))) :
    number fields field = word :=
  numberOr_of_word 0 h

/-- A code that was written under a field is read back as the value that has it. -/
theorem coded_of_code {α : Type} {fields : Fields} {field : String} (decode : Nat → Option α)
    {code : Nat} {value : α} (fallback : α) (hc : code < UInt32.size) (hd : decode code = some value)
    (h : fields field = some (Document.flatten (toString code))) :
    coded fields field decode fallback = value := by
  rw [coded, number, numberOr, h, Option.map_some, Option.getD_some, numberOf_toString hc,
    UInt32.toNat_ofNat_of_lt' hc, hd, Option.getD_some]

/-- A strength that was written under a field is read back. -/
theorem strength_of_strength {fields : Fields} {field : String} {value : UInt16}
    (h : fields field = some (Document.flatten (toString value.toNat))) :
    strength fields field = value := by
  have hbound : value.toNat < UInt16.size := value.toNat_lt
  have hsmall : UInt16.size = 0xFFFF + 1 := rfl
  have hsizes : UInt16.size ≤ UInt32.size := by decide
  have hlt : value.toNat < UInt32.size := by omega
  have hmin : min value.toNat 0xFFFF = value.toNat := by omega
  rw [strength, number, numberOr, h, Option.map_some, Option.getD_some, numberOf_toString hlt,
    UInt32.toNat_ofNat_of_lt' hlt, hmin, UInt16.ofNat_toNat]

/-- A truth value that was written under a field is read back. -/
theorem flag?_of_flag {fields : Fields} {field : String} {value : Bool}
    (h : fields field = some (Document.flatten (flagText value))) :
    flag? fields field = some value := by
  rw [flag?, h, Option.map_some]
  cases value <;> decide +kernel

/-! ## Records -/

/-- The fields of a patch are read back as the patch, its rumble at rest. -/
theorem readPatch_of_fields {fields : Fields} {patch : Patch}
    (h : ∀ field ∈ patchFields patch, fields field.1 = some (Document.flatten field.2)) :
    readPatch fields = { patch with rumbleState := {} } := by
  simp only [patchFields, List.forall_mem_cons, List.not_mem_nil, false_imp_iff, implies_true,
    and_true] at h
  obtain ⟨hendian, hwidth, hop, hvalue, haddress, hmask, htrigger, hwatched, hport, hstrong,
    hstrongTime, hweak, hweakTime, hcount, haddValue, haddAddress⟩ := h
  have hbig : bigEndian fields = patch.bigEndian := by
    rw [bigEndian, flag?_of_flag hendian, Option.some_or, Option.getD_some]
  have hw := coded_of_code Width.ofCode? .bits8 (by cases patch.width <;> decide)
    patch.width.ofCode?_code hwidth
  have ho := coded_of_code Operation.ofCode? .disabled (by cases patch.operation <;> decide)
    patch.operation.ofCode?_code hop
  have ht := coded_of_code RumbleTrigger.ofCode? .disabled
    (by cases patch.rumble.trigger <;> decide) patch.rumble.trigger.ofCode?_code htrigger
  rw [readPatch, hbig, hw, ho, ht, number_of_word haddress, number_of_word hmask,
    number_of_word hvalue, number_of_word hwatched, number_of_word hport,
    number_of_word hstrongTime, number_of_word hweakTime, strength_of_strength hstrong,
    strength_of_strength hweak, numberOr_of_word 1 hcount, numberOr_of_word 0 haddValue,
    numberOr_of_word 1 haddAddress]

/-- The record of a cheat is read back as what is saved of it. -/
theorem readCheat_of_records {fields : Fields} {cheat : Cheat} (h : Records fields cheat)
    (index : Nat) : readCheat fields index = cheat.saved index := by
  obtain ⟨place, description, enabled, effect⟩ := cheat
  obtain ⟨hdescription, hvalues⟩ := h
  have henable := flag?_of_flag (hvalues ("enable", flagText enabled)
    (List.mem_cons_of_mem _ List.mem_cons_self))
  have heffect : readEffect fields =
      (Cheat.saved index ⟨place, description, enabled, effect⟩).effect := by
    cases effect with
    | code text =>
      have hhandler := coded_of_code Handler.ofCode? .core (by decide)
        (Handler.ofCode?_code .core) (hvalues ("handler", toString Handler.core.code)
          (List.mem_cons_of_mem _ (List.mem_cons_of_mem _ List.mem_cons_self)))
      have hcode := hvalues ("code", text) List.mem_cons_self
      rw [readEffect, hhandler]
      dsimp only [Cheat.saved]
      rw [CheatRecord.text, hcode]
      rfl
    | patch patch =>
      have hhandler := coded_of_code Handler.ofCode? .core (by decide)
        (Handler.ofCode?_code .trainer) (hvalues ("handler", toString Handler.trainer.code)
          (List.mem_cons_of_mem _ (List.mem_cons_of_mem _ List.mem_cons_self)))
      have hpatch : readPatch fields = { patch with rumbleState := {} } :=
        readPatch_of_fields fun field hfield => hvalues field (List.mem_append_right _ hfield)
      rw [readEffect, hhandler]
      dsimp only [Cheat.saved]
      rw [hpatch]
  rw [readCheat, heffect, henable, hdescription]
  rfl

/-- What is read from a document depends on the values of its keys and their number. -/
theorem readAll_congr {first second : Document}
    (hget : ∀ found, first.get? found = second.get? found) (hsize : first.size = second.size) :
    readAll first = readAll second := by
  have hfields : fields first = fields second := by
    funext index field
    exact hget (key index field)
  have hannounced : announced first = announced second := by
    rw [announced, announced, funext hget]
  rw [readAll, readAll, hannounced, hsize, hfields]

/-- Cheats that were put into a document are read back, up to what is never saved. -/
theorem readAll_writeAll {document : Document} (h : document.Lawful) {cheats : List Cheat}
    (hne : cheats ≠ []) (hlt : cheats.length < UInt32.size) :
    readAll (writeAll document cheats) = .ok (cheats.mapIdx Cheat.saved) := by
  have hannounced : announced (writeAll document cheats) = cheats.length := by
    rw [announced, number, numberOr, get?_countKey_writeAll h, Option.map_some, Option.getD_some,
      numberOf_toString hlt, UInt32.toNat_ofNat_of_lt' hlt]
  have hpos : ¬cheats.length = 0 := fun hzero => hne (List.length_eq_zero_iff.1 hzero)
  have hmin := Nat.min_eq_left (length_le_size_writeAll h cheats)
  rw [readAll, hannounced, if_neg hpos]
  dsimp only
  rw [hmin]
  congr 1
  apply List.ext_getElem?
  intro i
  rw [List.getElem?_map, List.getElem?_mapIdx]
  by_cases hi : i < cheats.length
  · have hcheat := List.getElem?_eq_getElem hi
    rw [List.getElem?_range hi, hcheat, Option.map_some, Option.map_some,
      readCheat_of_records (records_writeAll h hcheat)]
  · have hle : cheats.length ≤ i := by omega
    have hrange : (List.range cheats.length)[i]? = none := by
      rw [List.getElem?_eq_none_iff, List.length_range]
      exact hle
    rw [hrange, List.getElem?_eq_none hle]
    rfl

/-- The text of a document that cheats were put into is read as a document that holds
the same. -/
theorem readAll_parse_render {document : Document} (h : document.Lawful)
    (hk : ∀ found ∈ document.keys, Document.Writable found) :
    readAll (Document.parse document.render) = readAll document := by
  have hentries := h.toList_parse_render hk
  have hparse : (Document.parse document.render).Lawful := Document.lawful_parse document.render
  apply readAll_congr
  · exact hparse.get?_congr h hentries
  · exact congrArg List.length hentries

/-- Cheats that are put into an empty document come back from its text, in their order,
up to what is never saved, when there are some and no more than words can number. -/
theorem readAll_parse_render_writeAll {cheats : List Cheat} (hne : cheats ≠ [])
    (hlt : cheats.length < UInt32.size) :
    readAll (Document.parse (writeAll {} cheats).render) = .ok (cheats.mapIdx Cheat.saved) := by
  have hempty := Document.lawful_empty
  rw [readAll_parse_render (lawful_writeAll hempty cheats)
    (writable_keys_writeAll hempty (fun found hfound => by cases hfound) cheats)]
  exact readAll_writeAll hempty hne hlt

/-- A code whose texts hold quotes, blanks, equals signs and line ends, and a patch
without a description, come back with the line ends as spaces and the rumble at rest. -/
theorem readAll_parse_render_two_cheats :
    let patch : Patch :=
      { address := 0xFFFFFFFF, bitMask := 0xC, width := .bits2, operation := .increase, value := 3,
        bigEndian := true, repetition := { count := 0 }, rumble := { strongStrength := 65535 } }
    let cheats : List Cheat :=
      [{ index := 5, description := some " \x22#a = \nb\x22 ", effect := .code "1\r\n2" },
        { index := 5, enabled := true,
          effect := .patch { patch with rumbleState := { previous := 9, strongEnd := some 4 } } }]
    readAll (Document.parse (writeAll {} cheats).render) =
      .ok [{ index := 0, description := some " \x22#a =  b\x22 ", effect := .code "1  2" },
        { index := 1, enabled := true, effect := .patch patch }] := by
  intro patch cheats
  have hsaved : cheats.mapIdx Cheat.saved =
      [{ index := 0, description := some " \x22#a =  b\x22 ", effect := .code "1  2" },
        { index := 1, enabled := true, effect := .patch patch }] := by
    decide +kernel
  rw [readAll_parse_render_writeAll (List.cons_ne_nil _ _) (by decide), hsaved]

end CheatRecord

end GameTrainer
