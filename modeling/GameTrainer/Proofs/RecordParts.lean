import GameTrainer.Proofs.RecordsOfText

/-!
# Parts of a cheat and the fields that feed them

Each field of a record feeds one part of the cheat, and each part but one is fed by one field; the
byte order is also read from the name that older files have for it. Main statements: a part is read
from the fields that feed it and, beside them, only the handler decides whether it is there; a
cheat is the sum of its parts; and so a field that is set in a document, to a good value or to
none, changes at most the part that it feeds of the one cheat that it belongs to.
-/

namespace GameTrainer

/-- The parts of a patch that are kept in a file. -/
inductive PatchPart where
  | address | bitMask | width | operation | value | bigEndian
  | count | addToValue | addToAddress
  | trigger | watchedValue | port
  | strongStrength | strongDuration | weakStrength | weakDuration
  deriving DecidableEq, Repr

/-- The parts of a cheat that are kept in a file, other than who carries it out. -/
inductive CheatPart where
  | description | enabled | code
  | patch (part : PatchPart)
  deriving DecidableEq, Repr

/-- Two patches have a part in common. -/
def PatchPart.Same (part : PatchPart) (first second : Patch) : Prop :=
  match part with
  | address => first.address = second.address
  | bitMask => first.bitMask = second.bitMask
  | width => first.width = second.width
  | operation => first.operation = second.operation
  | value => first.value = second.value
  | bigEndian => first.bigEndian = second.bigEndian
  | count => first.repetition.count = second.repetition.count
  | addToValue => first.repetition.addToValue = second.repetition.addToValue
  | addToAddress => first.repetition.addToAddress = second.repetition.addToAddress
  | trigger => first.rumble.trigger = second.rumble.trigger
  | watchedValue => first.rumble.value = second.rumble.value
  | port => first.rumble.port = second.rumble.port
  | strongStrength => first.rumble.strongStrength = second.rumble.strongStrength
  | strongDuration => first.rumble.strongDuration = second.rumble.strongDuration
  | weakStrength => first.rumble.weakStrength = second.rumble.weakStrength
  | weakDuration => first.rumble.weakDuration = second.rumble.weakDuration

/-- A patch is the sum of its parts and of what its rumble remembers. -/
theorem Patch.eq_of_same {first second : Patch} (hstate : first.rumbleState = second.rumbleState)
    (h : ∀ part : PatchPart, part.Same first second) : first = second := by
  have hrepetition : first.repetition = second.repetition :=
    Repetition.mk.injEq .. ▸ ⟨h .count, h .addToValue, h .addToAddress⟩
  have hrumble : first.rumble = second.rumble :=
    RumbleConfig.mk.injEq .. ▸ ⟨h .trigger, h .watchedValue, h .port, h .strongStrength,
      h .strongDuration, h .weakStrength, h .weakDuration⟩
  exact Patch.mk.injEq .. ▸ ⟨h .address, h .bitMask, h .width, h .operation, h .value,
    h .bigEndian, hrepetition, hrumble, hstate⟩

/-- Two cheats have a part in common; cheats that do not both have a patch have every part of a
patch in common. -/
def CheatPart.Same (part : CheatPart) (first second : Cheat) : Prop :=
  match part with
  | description => first.description = second.description
  | enabled => first.enabled = second.enabled
  | code => first.code? = second.code?
  | patch part => ∀ one ∈ first.patch?, ∀ two ∈ second.patch?, part.Same one two

/-- The cheats of a handler have the part. -/
def CheatPart.usedBy (part : CheatPart) (handler : Handler) : Bool :=
  match part with
  | description | enabled => true
  | code => handler == .core
  | patch _ => handler == .trainer

/-- Two cheats differ at most in one part: they stand at one place, are carried out by the same
handler, and have everything else in common, also what a rumble remembers. -/
structure Cheat.SameBut (part : CheatPart) (first second : Cheat) : Prop where
  /-- They stand at one place. -/
  index : first.index = second.index
  /-- The same handler carries them out. -/
  handler : first.handler = second.handler
  /-- Their rumbles remember the same. -/
  state : first.patch?.map Patch.rumbleState = second.patch?.map Patch.rumbleState
  /-- They have every other part in common. -/
  others : ∀ other : CheatPart, other ≠ part → other.Same first second

/-- A cheat is the sum of its parts, so cheats that have the last one in common too are equal. -/
theorem Cheat.SameBut.eq {part : CheatPart} {first second : Cheat} (h : first.SameBut part second)
    (hpart : part.Same first second) : first = second := by
  obtain ⟨hindex, hhandler, hstate, hothers⟩ := h
  have hall : ∀ other : CheatPart, other.Same first second := by
    intro other
    by_cases heq : other = part
    · exact heq ▸ hpart
    · exact hothers other heq
  obtain ⟨index, description, enabled, effect⟩ := first
  obtain ⟨place, text, switched, result⟩ := second
  have hdescription : description = text := hall .description
  have henabled : enabled = switched := hall .enabled
  have heffect : effect = result := by
    cases effect with
    | code code =>
      cases result with
      | code other => exact congrArg Effect.code (Option.some.inj (hall .code))
      | patch patch => cases hhandler
    | patch patch =>
      cases result with
      | code other => cases hhandler
      | patch other =>
        refine congrArg Effect.patch (Patch.eq_of_same (Option.some.inj hstate) fun inner => ?_)
        exact hall (.patch inner) patch rfl other rfl
  exact Cheat.mk.injEq .. ▸ ⟨hindex, hdescription, henabled, heffect⟩

/-- Cheats of one handler have every part in common that this handler does not use. -/
theorem CheatPart.same_of_not_usedBy {part : CheatPart} {first second : Cheat}
    (hhandler : first.handler = second.handler) (h : part.usedBy first.handler = false) :
    part.Same first second := by
  obtain ⟨_, _, _, effect⟩ := first
  obtain ⟨_, _, _, result⟩ := second
  cases part with
  | description => cases h
  | enabled => cases h
  | code =>
    cases effect with
    | code code => cases h
    | patch patch =>
      cases result with
      | code other => cases hhandler
      | patch other => rfl
  | patch part =>
    cases effect with
    | code code =>
      intro one hone
      cases hone
    | patch patch => cases h

/-- The part that a field feeds. -/
def CheatPart.fedBy? : String → Option CheatPart
  | "desc" => some .description
  | "enable" => some .enabled
  | "code" => some .code
  | "address" => some (.patch .address)
  | "address_bit_position" => some (.patch .bitMask)
  | "memory_search_size" => some (.patch .width)
  | "cheat_type" => some (.patch .operation)
  | "value" => some (.patch .value)
  | "big_endian" | "endian" => some (.patch .bigEndian)
  | "repeat_count" => some (.patch .count)
  | "repeat_add_to_value" => some (.patch .addToValue)
  | "repeat_add_to_address" => some (.patch .addToAddress)
  | "rumble_type" => some (.patch .trigger)
  | "rumble_value" => some (.patch .watchedValue)
  | "rumble_port" => some (.patch .port)
  | "rumble_primary_strength" => some (.patch .strongStrength)
  | "rumble_primary_duration" => some (.patch .strongDuration)
  | "rumble_secondary_strength" => some (.patch .weakStrength)
  | "rumble_secondary_duration" => some (.patch .weakDuration)
  | _ => none

namespace CheatRecord

/-! ## Parts are read from the fields that feed them -/

section

variable {first second : Fields} {field : String}

theorem numberOr_congr (missing : UInt32) (h : first field = second field) :
    numberOr first field missing = numberOr second field missing := by
  rw [numberOr, numberOr, h]

theorem number_congr (h : first field = second field) : number first field = number second field :=
  numberOr_congr 0 h

theorem strength_congr (h : first field = second field) :
    strength first field = strength second field := by
  rw [strength, strength, number_congr h]

theorem coded_congr {α : Type} (decode : Nat → Option α) (fallback : α)
    (h : first field = second field) :
    coded first field decode fallback = coded second field decode fallback := by
  rw [coded, coded, number_congr h]

theorem flag?_congr (h : first field = second field) : flag? first field = flag? second field := by
  rw [flag?, flag?, h]

/-- A part of a patch is read from the fields that feed it. -/
theorem same_readPatch {part : PatchPart}
    (h : ∀ field, CheatPart.fedBy? field = some (.patch part) → first field = second field) :
    part.Same (readPatch first) (readPatch second) := by
  cases part with
  | address => exact number_congr (h "address" rfl)
  | bitMask => exact number_congr (h "address_bit_position" rfl)
  | width => exact coded_congr _ _ (h "memory_search_size" rfl)
  | operation => exact coded_congr _ _ (h "cheat_type" rfl)
  | value => exact number_congr (h "value" rfl)
  | bigEndian =>
    have hnew := flag?_congr (h "big_endian" rfl)
    have hold := flag?_congr (h "endian" rfl)
    show bigEndian first = bigEndian second
    rw [bigEndian, bigEndian, hnew, hold]
  | count => exact numberOr_congr 1 (h "repeat_count" rfl)
  | addToValue => exact numberOr_congr 0 (h "repeat_add_to_value" rfl)
  | addToAddress => exact numberOr_congr 1 (h "repeat_add_to_address" rfl)
  | trigger => exact coded_congr _ _ (h "rumble_type" rfl)
  | watchedValue => exact number_congr (h "rumble_value" rfl)
  | port => exact number_congr (h "rumble_port" rfl)
  | strongStrength => exact strength_congr (h "rumble_primary_strength" rfl)
  | strongDuration => exact number_congr (h "rumble_primary_duration" rfl)
  | weakStrength => exact strength_congr (h "rumble_secondary_strength" rfl)
  | weakDuration => exact number_congr (h "rumble_secondary_duration" rfl)

/-! ## What the handler decides -/

/-- The code of a record is read when the core carries it out. -/
theorem code?_readCheat (fields : Fields) (index : Nat) :
    (readCheat fields index).code? =
      match coded fields "handler" Handler.ofCode? .core with
      | .core => some (text fields "code")
      | .trainer => none := by
  rw [Cheat.code?, readCheat]
  dsimp only
  rw [readEffect]
  cases coded fields "handler" Handler.ofCode? .core <;> rfl

/-- The patch of a record is read when the trainer carries it out. -/
theorem patch?_readCheat (fields : Fields) (index : Nat) :
    (readCheat fields index).patch? =
      match coded fields "handler" Handler.ofCode? .core with
      | .core => none
      | .trainer => some (readPatch fields) := by
  rw [Cheat.patch?, readCheat]
  dsimp only
  rw [readEffect]
  cases coded fields "handler" Handler.ofCode? .core <;> rfl

theorem handler_readCheat (fields : Fields) (index : Nat) :
    (readCheat fields index).handler = coded fields "handler" Handler.ofCode? .core := by
  rw [Cheat.handler, readCheat]
  dsimp only
  rw [readEffect]
  cases coded fields "handler" Handler.ofCode? .core <;> rfl

/-- Whichever patch a record gives, it is the one that its fields say. -/
theorem eq_readPatch {fields : Fields} {index : Nat} {patch : Patch}
    (h : patch ∈ (readCheat fields index).patch?) : patch = readPatch fields := by
  rw [patch?_readCheat] at h
  cases hhandler : coded fields "handler" Handler.ofCode? .core with
  | core =>
    rw [hhandler] at h
    cases h
  | trainer =>
    rw [hhandler] at h
    exact (Option.some.inj h).symm

/-- Records with the same handler and the same fields for a part have this part in common. -/
theorem same_readCheat (index : Nat) (hhandler : first "handler" = second "handler")
    {part : CheatPart}
    (h : ∀ field, CheatPart.fedBy? field = some part → first field = second field) :
    part.Same (readCheat first index) (readCheat second index) := by
  cases part with
  | description => exact h "desc" rfl
  | enabled =>
    exact congrArg (fun flag : Option Bool => flag.getD false) (flag?_congr (h "enable" rfl))
  | code =>
    show (readCheat first index).code? = (readCheat second index).code?
    rw [code?_readCheat, code?_readCheat, coded_congr _ _ hhandler, text, text, h "code" rfl]
  | patch part =>
    intro one hone two htwo
    rw [eq_readPatch hone, eq_readPatch htwo]
    exact same_readPatch h

/-- Records with the same handler and the same fields for all parts but one give the same cheat
but for this part. -/
theorem sameBut_readCheat (index : Nat) (hhandler : first "handler" = second "handler")
    {part : CheatPart}
    (h : ∀ field other, CheatPart.fedBy? field = some other → other ≠ part →
      first field = second field) :
    (readCheat first index).SameBut part (readCheat second index) where
  index := rfl
  handler := by
    rw [handler_readCheat, handler_readCheat, coded_congr _ _ hhandler]
  state := by
    rw [patch?_readCheat, patch?_readCheat, coded_congr _ _ hhandler]
    split <;> rfl
  others := fun other hother =>
    same_readCheat index hhandler fun field hfed => h field other hfed hother

/-- A field other than the handler that changes in a record changes at most the part that it feeds,
and nothing if the handler does not use this part. -/
theorem readCheat_of_one_field (index : Nat) {field : String} (hfield : field ≠ "handler")
    (h : ∀ other, other ≠ field → first other = second other) :
    readCheat second index = readCheat first index ∨
      ∃ part, CheatPart.fedBy? field = some part ∧
        part.usedBy (readCheat first index).handler = true ∧
        (readCheat first index).SameBut part (readCheat second index) := by
  have hhandler : first "handler" = second "handler" := h "handler" hfield.symm
  cases hfed : CheatPart.fedBy? field with
  | none =>
    have hsame : ∀ other part, CheatPart.fedBy? other = some part →
        first other = second other := by
      intro other part hother
      refine h other fun heq => ?_
      rw [heq, hfed] at hother
      cases hother
    have hbut : (readCheat first index).SameBut .description (readCheat second index) :=
      sameBut_readCheat index hhandler fun other part hother _ => hsame other part hother
    exact .inl (hbut.eq (hsame "desc" _ rfl)).symm
  | some part =>
    have hbut : (readCheat first index).SameBut part (readCheat second index) := by
      refine sameBut_readCheat index hhandler fun other its hother hne => h other fun heq => hne ?_
      rw [heq, hfed] at hother
      exact (Option.some.inj hother).symm
    cases hused : part.usedBy (readCheat first index).handler with
    | true => exact .inr ⟨part, rfl, hused, hbut⟩
    | false => exact .inl (hbut.eq (CheatPart.same_of_not_usedBy hbut.handler hused)).symm

end

/-! ## One field of a document -/

variable {document : Document}

/-- A field that is set belongs to one record, and to no other whose number looks like it. -/
theorem fields_set_of_ne (h : document.Lawful) {index place : Nat} (field value : String)
    (hplace : place ≠ index) :
    fields (document.set (key index field) value) place = fields document place := by
  funext other
  exact h.get?_set_of_ne value fun heq => hplace (key_injective heq).1.symm

theorem fields_set_field_of_ne (h : document.Lawful) (index : Nat) {field other : String}
    (value : String) (hother : other ≠ field) :
    fields (document.set (key index field) value) index other = fields document index other :=
  h.get?_set_of_ne value fun heq => hother (key_injective heq).2.symm

theorem announced_set_field (h : document.Lawful) (index : Nat) (field value : String) :
    announced (document.set (key index field) value) = announced document := by
  have hcount := h.get?_set_of_ne value (countKey_ne_key index field).symm
  rw [announced, announced, number_congr hcount]

/-- A key that is set is not taken from the number of keys. -/
theorem size_le_size_set (h : document.Lawful) (key value : String) :
    document.size ≤ (document.set key value).size := by
  have hkeys (any : Document) : any.keys.length = any.size := List.length_map _
  rw [← hkeys, ← hkeys, h.keys_set]
  split
  · exact Nat.le_refl _
  · exact (List.sublist_append_left _ _).length_le

/-- The cheats of a document that has at least as many keys as it announces cheats. -/
theorem readAll_eq_of_announced_le (hne : announced document ≠ 0)
    (hle : announced document ≤ document.size) :
    readAll document = .ok ((List.range (announced document)).map fun i =>
      readCheat (fields document i) i) := by
  rw [readAll_eq_ok_iff, Nat.min_eq_left hle]
  exact ⟨hne, rfl⟩

/-- Rows of results that differ in one place. -/
theorem map_range_eq_set {α : Type} {old new : Nat → α} (count : Nat) {index : Nat}
    (h : ∀ place, place ≠ index → new place = old place) :
    (List.range count).map new = ((List.range count).map old).set index (new index) := by
  apply List.ext_getElem
  · rw [List.length_set, List.length_map, List.length_map]
  · intro place hnew hold
    rw [List.getElem_map, List.getElem_range, List.getElem_set]
    split
    · rename_i heq
      rw [heq]
    · rename_i hne
      rw [List.getElem_map, List.getElem_range, h place (Ne.symm hne)]

/-- A field of a record other than the handler, set to a good value, to garbage, or for the first
time, changes at most the part that it feeds of the cheat at its place, and only when the handler
of that cheat uses the part. As many cheats are read as before, and all others are the same. -/
theorem one_field_feeds_one_part (text : String) (edits : List Document.Edit) {index : Nat}
    {field : String} (value : String)
    (hannounced : announced (Document.edited text edits) ≠ 0)
    (hsize : announced (Document.edited text edits) ≤ (Document.edited text edits).size)
    (hindex : index < announced (Document.edited text edits)) (hfield : field ≠ "handler") :
    ∃ cheats old new,
      readAll (Document.edited text edits) = .ok cheats ∧
        cheats.length = announced (Document.edited text edits) ∧ cheats[index]? = some old ∧
      readAll ((Document.edited text edits).set (key index field) value) =
        .ok (cheats.set index new) ∧
      (new = old ∨ ∃ part, CheatPart.fedBy? field = some part ∧
        part.usedBy old.handler = true ∧ old.SameBut part new) := by
  have hlawful := Document.lawful_edited text edits
  generalize Document.edited text edits = document at *
  have hsame := announced_set_field hlawful index field value
  have hgrown := size_le_size_set hlawful (key index field) value
  have hbefore := readAll_eq_of_announced_le hannounced hsize
  have hafter := readAll_eq_of_announced_le (hsame ▸ hannounced) (hsame ▸ Nat.le_trans hsize hgrown)
  have hothers : ∀ place, place ≠ index →
      readCheat (fields (document.set (key index field) value) place) place =
        readCheat (fields document place) place := by
    intro place hplace
    rw [fields_set_of_ne hlawful field value hplace]
  rw [hsame, map_range_eq_set _ hothers] at hafter
  have hplace : ((List.range (announced document)).map fun i =>
      readCheat (fields document i) i)[index]? =
        some (readCheat (fields document index) index) := by
    rw [List.getElem?_map, List.getElem?_range hindex]
    rfl
  refine ⟨_, _, _, hbefore, ?_, hplace, hafter, ?_⟩
  · rw [List.length_map, List.length_range]
  · exact readCheat_of_one_field index hfield fun other hother =>
      (fields_set_field_of_ne hlawful index value hother).symm

/-- A number spoiled in record 1 of twelve leaves record 11 as it is, and of record 1 all but the
address. -/
theorem one_field_feeds_one_part_of_twelve :
    let text := "cheats=12\ncheat1_handler=1\ncheat1_address=9\ncheat11_handler=1\n" ++
      "cheat11_address=8\nA=\nB=\nC=\nD=\nE=\nF=\nG=\n"
    ∃ cheats old new,
      readAll (Document.parse text) = .ok cheats ∧ cheats.length = 12 ∧ cheats[1]? = some old ∧
      readAll ((Document.parse text).set "cheat1_address" "a lot") = .ok (cheats.set 1 new) ∧
      (new = old ∨ old.SameBut (.patch .address) new) := by
  intro text
  have hcount : announcedBy text = some 12 := by decide +kernel
  have hsize : (Document.parse text).size = 12 := by
    rw [Document.size_parse]
    decide +kernel
  have hkey : key 1 "address" = "cheat1_address" := by decide +kernel
  -- from here on only the two counts matter
  clear_value text
  have hannounced : announced (Document.edited text []) = 12 := by
    show announced (Document.parse text) = 12
    rw [announced_parse, hcount]
    rfl
  obtain ⟨cheats, old, new, hread, hlength, hold, hset, hbut⟩ :=
    @one_field_feeds_one_part text [] 1 "address" "a lot"
      (by rw [hannounced]; decide) (Nat.le_of_eq (hannounced.trans hsize.symm))
      (by rw [hannounced]; decide) (by decide)
  refine ⟨cheats, old, new, hread, hlength.trans hannounced, hold, hkey ▸ hset, hbut.imp_right ?_⟩
  rintro ⟨part, hpart, -, hsame⟩
  cases hpart
  exact hsame

end CheatRecord

end GameTrainer
