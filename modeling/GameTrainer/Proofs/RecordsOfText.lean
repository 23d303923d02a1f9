import Mathlib.Data.List.Dedup
import GameTrainer.Proofs.DocumentEdits
import GameTrainer.Proofs.RecordRoundTrip

/-!
# Records of any text

Whatever text stands in a cheat file, what is read from it is decided by its last word on the
number of cheats and by its keys. Main statements: a text is read when the last value that it
gives to the count is a numeral other than zero; there are then as many cheats as it says, but no
more than there are different keys; and however damaged the text was, the cheats that were made
of it are saved and read back as they are.
-/

namespace GameTrainer

/-! ## Numerals and line ends -/

namespace Numeral

/-- A character on one line: a carriage return or line feed becomes a space. -/
def flat (c : Char) : Char := if c = '\r' ∨ c = '\n' then ' ' else c

/-- Flattening changes no character but line ends, which are blank before and after. -/
theorem flat_eq_self_or (c : Char) :
    flat c = c ∨ isBlank c = true ∧ isBlank (flat c) = true ∧ digitValue? c = none ∧ flat c = ' ' := by
  by_cases h : c = '\r' ∨ c = '\n'
  · rw [flat, if_pos h]
    right
    rcases h with rfl | rfl <;> decide
  · exact .inl (if_neg h)

theorem isBlank_flat (c : Char) : isBlank (flat c) = isBlank c := by
  obtain h | ⟨hblank, hflat, _⟩ := flat_eq_self_or c
  · rw [h]
  · rw [hblank, hflat]

theorem digitValue?_flat (c : Char) : digitValue? (flat c) = digitValue? c := by
  obtain h | ⟨_, _, hnone, hspace⟩ := flat_eq_self_or c
  · rw [h]
  · rw [hnone, hspace]
    decide

/-- Only a character itself is flattened to one that is no space. -/
theorem eq_of_flat {c d : Char} (h : flat c = d) (hd : d ≠ ' ') : c = d := by
  obtain hsame | ⟨_, _, _, hspace⟩ := flat_eq_self_or c
  · exact hsame.symm.trans h
  · exact absurd (h.symm.trans hspace) hd

theorem trim_map_flat (text : List Char) : Text.trim (text.map flat) = (Text.trim text).map flat := by
  have hdrop : ∀ row : List Char,
      (row.map flat).dropWhile isBlank = (row.dropWhile isBlank).map flat := by
    intro row
    rw [List.dropWhile_map]
    congr 1
    congr 1
    funext c
    exact isBlank_flat c
  rw [Text.trim, Text.trimEnd, Text.trimStart, hdrop, ← List.map_reverse, hdrop, ← List.map_reverse]
  rfl

theorem digits?_map_flat (base value : Nat) (text : List Char) :
    digits? base value (text.map flat) = digits? base value text := by
  induction text generalizing value with
  | nil => rfl
  | cons c rest ih =>
    rw [List.map_cons, digits?, digits?, digitValue?_flat]
    cases digitValue? c with
    | none => rfl
    | some digit => simp only [ih]

theorem natural?_map_flat (base : Nat) (text : List Char) :
    natural? base (text.map flat) = natural? base text := by
  have hunsigned : ∀ row : List Char, unsigned? base (row.map flat) = unsigned? base row := by
    intro row
    rw [unsigned?, unsigned?, List.isEmpty_map, digits?_map_flat]
  cases text with
  | nil => rfl
  | cons c rest =>
    by_cases hplus : c = '+'
    · rw [hplus]
      exact hunsigned rest
    · have hflat : flat c ≠ '+' := fun h => hplus (eq_of_flat h (by decide))
      have hmapped := hunsigned (c :: rest)
      rw [List.map_cons] at hmapped ⊢
      rw [natural?, natural?]
      · exact hmapped
      · intro later heq
        exact hplus (List.cons.inj heq).1
      · intro later heq
        exact hflat (List.cons.inj heq).1

/-- A flattened text that begins with two characters other than spaces began with them. -/
theorem exists_of_map_flat {text hex : List Char} {c d : Char}
    (h : text.map flat = c :: d :: hex) (hc : c ≠ ' ') (hd : d ≠ ' ') :
    ∃ rest, text = c :: d :: rest ∧ hex = rest.map flat := by
  obtain ⟨first, later, rfl, hfirst, hlater⟩ := List.map_eq_cons_iff.1 h
  obtain ⟨second, rest, rfl, hsecond, hrest⟩ := List.map_eq_cons_iff.1 hlater
  exact ⟨rest, by rw [eq_of_flat hfirst hc, eq_of_flat hsecond hd], hrest.symm⟩

/-- A text denotes the same word, or none, when its line ends have become spaces. -/
theorem word?_flatten (text : String) :
    word? (Document.flatten text).toList = word? text.toList := by
  have hflat : (Document.flatten text).toList = text.toList.map flat := String.toList_ofList
  rw [hflat, word?, word?, trim_map_flat]
  congr 2
  generalize Text.trim text.toList = row
  split
  · rename_i hex heq
    obtain ⟨rest, rfl, rfl⟩ := exists_of_map_flat heq (by decide) (by decide)
    exact natural?_map_flat 16 rest
  · rename_i hex heq
    obtain ⟨rest, rfl, rfl⟩ := exists_of_map_flat heq (by decide) (by decide)
    exact natural?_map_flat 16 rest
  · rename_i hsmall hlarge
    rw [natural?_map_flat]
    split
    · exact (hsmall _ rfl).elim
    · exact (hlarge _ rfl).elim
    · rfl

end Numeral

/-! ## The keys of a text -/

namespace Document

/-- Setting keys adds those that are new. -/
theorem Lawful.mem_keys_setAll {document : Document} (h : document.Lawful)
    (pairs : List (String × String)) {key : String} :
    key ∈ (document.setAll pairs).keys ↔ key ∈ document.keys ∨ key ∈ pairs.map Prod.fst := by
  induction pairs generalizing document with
  | nil => simp [setAll]
  | cons pair rest ih =>
    have hrest := ih (h.set pair.1 pair.2)
    have hkeys : key ∈ (document.set pair.1 pair.2).keys ↔ key ∈ document.keys ∨ key = pair.1 := by
      rw [h.keys_set]
      split
      · rename_i hmem
        exact ⟨.inl, fun hor => hor.elim id fun heq => heq ▸ hmem⟩
      · rw [List.mem_append, List.mem_singleton]
    rw [hkeys, or_assoc] at hrest
    rw [List.map_cons, List.mem_cons]
    exact hrest

/-- The keys of a document are those that the lines of its text set. -/
theorem mem_keys_parse_iff {text key : String} :
    key ∈ (parse text).keys ↔ key ∈ (readings text).map Prod.fst := by
  rw [parse, lawful_empty.mem_keys_setAll, readings, List.map_map]
  exact or_iff_right List.not_mem_nil

/-- A document has as many keys as its text sets different ones. -/
theorem size_parse (text : String) :
    (parse text).size = ((readings text).map Prod.fst).dedup.length := by
  have hsame : (parse text).keys.Perm ((readings text).map Prod.fst).dedup := by
    rw [List.perm_ext_iff_of_nodup (lawful_parse text).nodup_keys (List.nodup_dedup _)]
    intro key
    rw [mem_keys_parse_iff, List.mem_dedup]
  rw [← hsame.length_eq, keys, List.length_map]
  rfl

end Document

/-! ## What is read is what is saved -/

namespace CheatRecord

variable {document : Document}

/-- The field of a record stands on one line. -/
theorem flatten_of_fields (h : document.Lawful) {index : Nat} {field value : String}
    (hvalue : fields document index field = some value) : Document.flatten value = value :=
  h.flat _ (h.get?_eq_some_iff.1 hvalue)

/-- A cheat that was read from a record is what is saved of it at the same place. -/
theorem saved_readCheat (h : document.Lawful) (index : Nat) :
    (readCheat (fields document index) index).saved index =
      readCheat (fields document index) index := by
  have hdescription : (fields document index "desc").map Document.flatten =
      fields document index "desc" := by
    cases hfield : fields document index "desc" with
    | none => rfl
    | some value => rw [Option.map_some, flatten_of_fields h hfield]
  have hcode : Document.flatten (text (fields document index) "code") =
      text (fields document index) "code" := by
    rw [text]
    cases hfield : fields document index "code" with
    | none => decide
    | some value => rw [Option.getD_some, flatten_of_fields h hfield]
  have heffect : ((readCheat (fields document index) index).saved index).effect =
      readEffect (fields document index) := by
    rw [Cheat.saved, readCheat]
    dsimp only
    rw [readEffect]
    cases coded (fields document index) "handler" Handler.ofCode? .core with
    | core => exact congrArg Effect.code hcode
    | trainer => rfl
  have hsaved : (readCheat (fields document index) index).saved index =
      { index := UInt32.ofNat index
        description := (fields document index "desc").map Document.flatten
        enabled := (flag? (fields document index) "enable").getD false
        effect := ((readCheat (fields document index) index).saved index).effect } := rfl
  rw [hsaved, hdescription, heffect]
  rfl

/-- The number that the last value of the count in a text denotes, if it is a numeral. -/
def announcedBy (text : String) : Option UInt32 :=
  (Document.latest countKey (Document.readings text)).bind fun raw => Numeral.word? raw.toList

/-- A document announces what the last value of the count in its text denotes. -/
theorem announced_parse (text : String) :
    announced (Document.parse text) = ((announcedBy text).getD 0).toNat := by
  rw [announced, number, numberOr, Document.parse_eq_changeAll, Document.get?_changeAll_empty,
    announcedBy]
  congr 1
  cases Document.latest countKey (Document.readings text) with
  | none => rfl
  | some raw =>
    rw [Option.map_some, Option.map_some, Option.getD_some, Option.bind_some, numberOf,
      Numeral.word?_flatten]

/-- What was read from a document are the cheats of its first records, and at least one. -/
theorem readAll_eq_ok_iff {cheats : List Cheat} :
    readAll document = .ok cheats ↔
      announced document ≠ 0 ∧
        cheats = (List.range (min (announced document) document.size)).map fun i =>
          readCheat (fields document i) i := by
  rw [readAll]
  by_cases hzero : announced document = 0
  · rw [if_pos hzero]
    simp [hzero]
  · rw [if_neg hzero]
    simp [hzero, eq_comm]

/-- A document that announces cheats has a key. -/
theorem size_ne_zero (h : document.Lawful) (hannounced : announced document ≠ 0) :
    document.size ≠ 0 := by
  intro hsize
  apply hannounced
  have hnone : document.get? countKey = none := by
    rw [Option.eq_none_iff_forall_ne_some]
    intro value hvalue
    have hmem := h.get?_eq_some_iff.1 hvalue
    have hlength : document.toList.length = 0 := hsize
    rw [List.length_eq_zero_iff.1 hlength] at hmem
    cases hmem
  rw [announced, number, numberOr, hnone]
  rfl

/-- Cheats that were read from a document are what is saved of them. There is at least one, and
there are no more than words can number. -/
theorem mapIdx_saved_of_readAll (h : document.Lawful) {cheats : List Cheat}
    (hread : readAll document = .ok cheats) :
    cheats.mapIdx Cheat.saved = cheats ∧ cheats ≠ [] ∧ cheats.length < UInt32.size := by
  obtain ⟨hannounced, rfl⟩ := readAll_eq_ok_iff.1 hread
  have hsize := size_ne_zero h hannounced
  have hword : announced document < UInt32.size := UInt32.toNat_lt _
  refine ⟨?_, ?_, ?_⟩
  · apply List.ext_getElem?
    intro i
    rw [List.getElem?_mapIdx]
    cases hcheat : ((List.range (min (announced document) document.size)).map fun i =>
        readCheat (fields document i) i)[i]? with
    | none => rfl
    | some cheat =>
      rw [List.getElem?_map] at hcheat
      obtain ⟨place, hplace, rfl⟩ := Option.map_eq_some_iff.1 hcheat
      obtain ⟨hi, rfl⟩ := List.getElem?_eq_some_iff.1 hplace
      rw [List.getElem_range, Option.map_some, saved_readCheat h]
  · intro hnil
    have hlength := congrArg List.length hnil
    rw [List.length_map, List.length_range, List.length_nil] at hlength
    omega
  · rw [List.length_map, List.length_range]
    omega

/-- A text is read as cheats when the last value of the count in it is a numeral other than zero.
They are then as many as it says, or as many as there are different keys if it says more, and are
numbered from zero; and whatever the text held, they are read back just as they are from the text
of an empty document that they are put into. -/
theorem cheats_of_text_stable (text : String) :
    ((∃ cheats, readAll (Document.parse text) = .ok cheats) ↔
        ∃ count, announcedBy text = some count ∧ count ≠ 0) ∧
      ∀ cheats, readAll (Document.parse text) = .ok cheats →
        (∃ count, announcedBy text = some count ∧
          cheats.map (fun cheat => cheat.index.toNat) =
            List.range (min count.toNat ((Document.readings text).map Prod.fst).dedup.length)) ∧
        readAll (Document.parse (writeAll {} cheats).render) = .ok cheats := by
  have hlawful := Document.lawful_parse text
  have hannounced := announced_parse text
  have hcount : announced (Document.parse text) ≠ 0 ↔
      ∃ count, announcedBy text = some count ∧ count ≠ 0 := by
    rw [hannounced]
    cases announcedBy text with
    | none => simp
    | some count =>
      simp only [Option.getD_some, Option.some.injEq, exists_eq_left']
      exact not_congr (UInt32.toNat_inj (a := count) (b := 0))
  refine ⟨?_, fun cheats hread => ⟨?_, ?_⟩⟩
  · rw [← hcount]
    constructor
    · rintro ⟨cheats, hread⟩
      exact (readAll_eq_ok_iff.1 hread).1
    · intro hne
      exact ⟨_, readAll_eq_ok_iff.2 ⟨hne, rfl⟩⟩
  · obtain ⟨hne, rfl⟩ := readAll_eq_ok_iff.1 hread
    obtain ⟨count, hsome, _⟩ := hcount.1 hne
    refine ⟨count, hsome, ?_⟩
    rw [hsome, Option.getD_some] at hannounced
    have hword : count.toNat < UInt32.size := count.toNat_lt
    rw [hannounced, Document.size_parse, List.map_map]
    conv => rhs; rw [← List.map_id (List.range _)]
    apply List.map_congr_left
    intro i hi
    have hlt := List.mem_range.1 hi
    exact UInt32.toNat_ofNat_of_lt' (by omega)
  · obtain ⟨hsaved, hne, hlt⟩ := mapIdx_saved_of_readAll hlawful hread
    have hempty := Document.lawful_empty
    rw [readAll_parse_render (lawful_writeAll hempty cheats)
      (writable_keys_writeAll hempty (fun found hfound => by cases hfound) cheats),
      readAll_writeAll hempty hne hlt, hsaved]

/-- A count that is too large and comes after another one, a code that nothing has, a number that
is none, and an older key make four cheats, which are read back as they are. -/
theorem cheats_of_damaged_text_stable :
    let text := "cheats = 0\ncheat0_handler = 1\ncheat0_cheat_type = 42\n# cheats = 2\n" ++
      "cheat0_endian = TRUE\ncheat0_handler = lots\ncheats = \x22 0X9\r\x22\n"
    announcedBy text = some 9 ∧
      ∃ cheats, readAll (Document.parse text) = .ok cheats ∧
        cheats.map (fun cheat => cheat.index.toNat) = [0, 1, 2, 3] ∧
        readAll (Document.parse (writeAll {} cheats).render) = .ok cheats := by
  intro text
  have hcount : announcedBy text = some 9 := by decide +kernel
  have hkeys : ((Document.readings text).map Prod.fst).dedup.length = 4 := by decide +kernel
  obtain ⟨hread, hstable⟩ := cheats_of_text_stable text
  obtain ⟨cheats, hcheats⟩ := hread.2 ⟨9, hcount, by decide⟩
  obtain ⟨⟨count, hsame, hplaces⟩, hagain⟩ := hstable cheats hcheats
  cases hcount.symm.trans hsame
  rw [hkeys] at hplaces
  exact ⟨hcount, cheats, hcheats, hplaces, hagain⟩

end CheatRecord

end GameTrainer
