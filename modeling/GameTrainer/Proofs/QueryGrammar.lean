import GameTrainer.CommandSearch
import GameTrainer.Proofs.QuerySpelling

/-!
# The texts that are queries

A query is read from its written forms, and a kind that needs no value also from its name with an
equals sign behind it, where nothing of what follows is looked at. Main statement: these are all
the texts that are read as a query; every other one is refused with the reason and the text as
given; and a step of a search goes through or is refused as the part before its first colon is.
-/

namespace GameTrainer

namespace Query

/-! ## What a text can be -/

/-- The name of a kind stands at the beginning of a text, in any letter case and between blanks,
and nothing or an equals sign behind it. -/
def Names (query : Query) (text : List Char) : Prop :=
  ∃ word front, Text.Recased word query.name.toList ∧ Text.Padded word front ∧
    (text = front ∨ ∃ back, text = front ++ '=' :: back)

/-- A text names a kind that needs no value, with an equals sign behind the name. -/
inductive Surplus : Query → List Char → Prop where
  | intro {query : Query} {word front : List Char} (hnone : query.operand? = none)
      (hname : Text.Recased word query.name.toList) (hfront : Text.Padded word front)
      (back : List Char) : Surplus query (front ++ '=' :: back)

/-- What keeps a text from being a query. -/
inductive Refused (text : List Char) : QueryFault → Prop where
  /-- A kind that needs a value is named, and no numeral stands behind the first equals sign. -/
  | valueMissing {query : Query} {value : UInt32} (hvalue : query.operand? = some value)
      (hname : query.Names text)
      (hback : ∀ front back, text = front ++ '=' :: back → '=' ∉ front →
        ∀ word, ¬Numeral.Written back word) :
      Refused text (.valueMissing (String.ofList text))
  /-- No kind is named. -/
  | unknownKind (hname : ∀ query : Query, ¬query.Names text) :
      Refused text (.unknownKind (String.ofList text))

/-! ## Kinds and their names -/

/-- Only the name of a query stands for a kind. -/
theorem exists_of_kind? {name : String} {kind : Kind} (h : kind? name = some kind) :
    ∃ query : Query, name = query.name := by
  rw [kind?.eq_def] at h
  split at h
  · exact ⟨.exact 0, rfl⟩
  · exact ⟨.equalPlus 0, rfl⟩
  · exact ⟨.equalMinus 0, rfl⟩
  · exact ⟨.less, rfl⟩
  · exact ⟨.greater, rfl⟩
  · exact ⟨.lessOrEqual, rfl⟩
  · exact ⟨.greaterOrEqual, rfl⟩
  · exact ⟨.equal, rfl⟩
  · exact ⟨.unequal, rfl⟩
  · cases h

/-- A kind that needs a value can have any. -/
theorem exists_withValue {query : Query} {value : UInt32} (h : query.operand? = some value)
    (other : UInt32) : ∃ changed : Query, changed.name = query.name ∧
      changed.operand? = some other := by
  cases query with
  | exact => exact ⟨.exact other, rfl, rfl⟩
  | equalPlus => exact ⟨.equalPlus other, rfl, rfl⟩
  | equalMinus => exact ⟨.equalMinus other, rfl, rfl⟩
  | _ => cases h

/-- A text in which a name is found between blanks and in some letter case has it there. -/
theorem exists_of_folded_eq_name {query : Query} {front : List Char}
    (h : String.ofList ((Text.trim front).map Char.toLower) = query.name) :
    ∃ word, Text.Recased word query.name.toList ∧ Text.Padded word front := by
  refine ⟨Text.trim front, ?_, Text.padded_trim front⟩
  rw [← h, String.toList_ofList]
  exact Text.recased_map_toLower _

/-! ## Reading -/

/-- A kind that needs no value is read in spite of an equals sign behind its name. -/
theorem parse_of_surplus {query : Query} {text : String} (h : Surplus query text.toList) :
    parse text = .ok query := by
  generalize hlist : text.toList = list at h
  rw [parse, hlist]
  cases h with
  | intro hnone hname hfront back =>
    rw [Text.splitFirst_append back (equals_not_mem hname hfront)]
    dsimp only
    rw [folded_name hname hfront, kind?_name_of_none hnone]

/-- A kind that needs a value is refused without one. -/
theorem parse_of_valueMissing {query : Query} {value : UInt32} {text : String}
    (hvalue : query.operand? = some value) (hname : query.Names text.toList)
    (hback : ∀ front back, text.toList = front ++ '=' :: back → '=' ∉ front →
      ∀ word, ¬Numeral.Written back word) :
    parse text = .error (.invalidQuery (.valueMissing text)) := by
  obtain ⟨word, front, hword, hfront, htext⟩ := hname
  have hplain := equals_not_mem hword hfront
  obtain ⟨make, hkind, _⟩ := kind?_name_of_some hvalue
  rw [parse]
  obtain htext | ⟨back, htext⟩ := htext
  · rw [htext, Text.splitFirst_eq_none hplain]
    dsimp only
    rw [folded_name hword hfront, hkind]
    rfl
  · have hword? : Numeral.word? back = none := by
      rw [Option.eq_none_iff_forall_ne_some]
      intro found hfound
      exact hback front back htext hplain found (Numeral.word?_eq_some_iff.1 hfound)
    rw [htext, Text.splitFirst_append back hplain]
    dsimp only
    rw [folded_name hword hfront, hkind, Option.bind_some, hword?]

/-- A text that names no kind is refused. -/
theorem parse_of_unknownKind {text : String} (hname : ∀ query : Query, ¬query.Names text.toList) :
    parse text = .error (.invalidQuery (.unknownKind text)) := by
  have hkind : ∀ front, (text.toList = front ∨ ∃ back, text.toList = front ++ '=' :: back) →
      kind? (String.ofList ((Text.trim front).map Char.toLower)) = none := by
    intro front hfront
    cases hfound : kind? (String.ofList ((Text.trim front).map Char.toLower)) with
    | none => rfl
    | some kind =>
      obtain ⟨query, hquery⟩ := exists_of_kind? hfound
      obtain ⟨word, hword, hpadded⟩ := exists_of_folded_eq_name hquery
      exact absurd ⟨word, front, hword, hpadded, hfront⟩ (hname query)
  rw [parse]
  cases hcut : Text.splitFirst '=' text.toList with
  | none =>
    dsimp only
    rw [hkind _ (.inl rfl)]
  | some parts =>
    obtain ⟨front, back⟩ := parts
    dsimp only
    rw [hkind front (.inr ⟨back, (Text.splitFirst_eq_some hcut).1⟩)]

/-- A text that cannot be a query is refused for what keeps it from being one. -/
theorem parse_of_refused {text : List Char} {fault : QueryFault} (h : Refused text fault) :
    parse (String.ofList text) = .error (.invalidQuery fault) := by
  cases h with
  | valueMissing hvalue hname hback =>
    rw [← String.toList_ofList (l := text)] at hname hback
    exact parse_of_valueMissing hvalue hname hback
  | unknownKind hname =>
    rw [← String.toList_ofList (l := text)] at hname
    exact parse_of_unknownKind hname

/-- A text that names a kind that needs a value says a query of this kind or is refused. -/
theorem Names.written_or_refused {query : Query} {value : UInt32} {text : List Char}
    (h : query.Names text) (hvalue : query.operand? = some value) :
    (∃ other, Written other text) ∨ Refused text (.valueMissing (String.ofList text)) := by
  obtain ⟨word, front, hword, hfront, htext⟩ := id h
  have hplain := equals_not_mem hword hfront
  by_cases hback : ∃ back word, text = front ++ '=' :: back ∧ Numeral.Written back word
  · obtain ⟨back, other, rfl, hnumeral⟩ := hback
    obtain ⟨changed, hsame, hother⟩ := exists_withValue hvalue other
    rw [← hsame] at hword
    exact .inl ⟨changed, .withValue hother hword hfront hnumeral⟩
  · refine .inr (.valueMissing hvalue h ?_)
    intro front' back' hcut hplain' numeral hnumeral
    obtain rfl | ⟨back, rfl⟩ := htext
    · exact hplain (hcut ▸ List.mem_append_right _ List.mem_cons_self)
    · obtain ⟨_, rfl⟩ := Text.cut_unique hcut hplain hplain'
      exact hback ⟨back, numeral, rfl, hnumeral⟩

/-- Every text is a query, is one with something needless behind it, or is refused. -/
theorem written_or_surplus_or_refused (text : List Char) :
    (∃ query, Written query text ∨ Surplus query text) ∨ ∃ fault, Refused text fault := by
  by_cases hname : ∃ query : Query, query.Names text
  · obtain ⟨query, hquery⟩ := hname
    cases hvalue : query.operand? with
    | none =>
      obtain ⟨word, front, hword, hfront, rfl | ⟨back, rfl⟩⟩ := hquery
      · exact .inl ⟨query, .inl (.bare hvalue hword hfront)⟩
      · exact .inl ⟨query, .inr (.intro hvalue hword hfront back)⟩
    | some value =>
      obtain ⟨other, hother⟩ | hrefused := hquery.written_or_refused hvalue
      · exact .inl ⟨other, .inl hother⟩
      · exact .inr ⟨_, hrefused⟩
  · exact .inr ⟨_, .unknownKind fun query hquery => hname ⟨query, hquery⟩⟩

/-- A text is read as a query when it says the query, or names it and has something needless
behind the name. -/
theorem parse_ofList_eq_ok_iff {text : List Char} {query : Query} :
    parse (String.ofList text) = .ok query ↔ Written query text ∨ Surplus query text := by
  have hread : ∀ query, Written query text ∨ Surplus query text →
      parse (String.ofList text) = .ok query := by
    intro query hquery
    rw [← String.toList_ofList (l := text)] at hquery
    obtain hwritten | hsurplus := hquery
    · exact parse_of_written hwritten
    · exact parse_of_surplus hsurplus
  refine ⟨fun h => ?_, hread query⟩
  obtain ⟨other, hother⟩ | ⟨fault, hfault⟩ := written_or_surplus_or_refused text
  · rw [hread other hother] at h
    cases h
    exact hother
  · rw [parse_of_refused hfault] at h
    cases h

/-- Any other text is refused, and it is told why. -/
theorem parse_ofList_eq_error_iff {text : List Char} {failure : Failure} :
    parse (String.ofList text) = .error failure ↔
      ∃ fault, failure = .invalidQuery fault ∧ Refused text fault := by
  constructor
  · intro h
    obtain ⟨query, hquery⟩ | ⟨fault, hfault⟩ := written_or_surplus_or_refused text
    · rw [parse_ofList_eq_ok_iff.2 hquery] at h
      cases h
    · rw [parse_of_refused hfault] at h
      cases h
      exact ⟨fault, rfl, hfault⟩
  · rintro ⟨fault, rfl, hfault⟩
    exact parse_of_refused hfault

/-- A text with something needless behind a name says no query. -/
theorem Surplus.not_written {query other : Query} {text : List Char} (h : Surplus query text) :
    ¬Written other text := by
  intro hwritten
  have hfound : query.operand? = none ∧ '=' ∈ text := by
    cases h with
    | intro hnone _ _ back => exact ⟨hnone, List.mem_append_right _ List.mem_cons_self⟩
  have hread := parse_ofList_eq_ok_iff.2 (.inr h)
  rw [parse_ofList_eq_ok_iff.2 (.inl hwritten)] at hread
  cases hread
  cases hwritten with
  | bare _ hword htext => exact equals_not_mem hword htext hfound.2
  | withValue hvalue =>
    rw [hfound.1] at hvalue
    cases hvalue

/-- What is refused is what neither says a query nor names one and goes on. -/
theorem exists_refused_iff {text : List Char} :
    (∃ fault, Refused text fault) ↔ ∀ query, ¬Written query text ∧ ¬Surplus query text := by
  constructor
  · rintro ⟨fault, hfault⟩ query
    rw [← not_or]
    intro hquery
    have hread := parse_ofList_eq_ok_iff.2 hquery
    rw [parse_of_refused hfault] at hread
    cases hread
  · intro hnone
    obtain ⟨query, hquery⟩ | hrefused := written_or_surplus_or_refused text
    · exact absurd hquery (not_or.2 (hnone query))
    · exact hrefused

end Query

namespace SearchCommand.DumpStep

open Query

/-- A step with a colon is read as the part before its first colon is. -/
theorem parse_of_colon {text : String} {front dump : List Char}
    (htext : text.toList = front ++ ':' :: dump) (hplain : ':' ∉ front) :
    parse text = ((Query.parse (String.ofList front)).mapError Complaint.ofFailure).map
      fun query => ⟨query, String.ofList dump⟩ := by
  rw [parse, htext, Text.splitFirst_append dump hplain]
  dsimp only
  cases Query.parse (String.ofList front) with
  | ok query => rfl
  | error failure => rfl

/-- A step goes through when the part before its first colon is read as its query. -/
theorem parse_eq_ok_iff {text : String} {front dump : List Char}
    (htext : text.toList = front ++ ':' :: dump) (hplain : ':' ∉ front) {step : DumpStep} :
    parse text = .ok step ↔
      (Written step.query front ∨ Surplus step.query front) ∧ step.dump = String.ofList dump := by
  rw [parse_of_colon htext hplain, ← parse_ofList_eq_ok_iff]
  cases Query.parse (String.ofList front) with
  | ok query =>
    constructor
    · intro h
      cases h
      exact ⟨rfl, rfl⟩
    · rintro ⟨hquery, hdump⟩
      cases hquery
      rw [← hdump]
      rfl
  | error failure =>
    constructor
    · intro h
      cases h
    · rintro ⟨hquery, _⟩
      cases hquery

/-- A step is refused when that part is, with the same reason. -/
theorem parse_eq_error_iff {text : String} {front dump : List Char}
    (htext : text.toList = front ++ ':' :: dump) (hplain : ':' ∉ front) {complaint : Complaint} :
    parse text = .error complaint ↔
      ∃ fault, complaint = .ofFailure (.invalidQuery fault) ∧ Refused front fault := by
  rw [parse_of_colon htext hplain]
  cases hquery : Query.parse (String.ofList front) with
  | ok query =>
    constructor
    · intro h
      cases h
    · rintro ⟨fault, _, hfault⟩
      rw [parse_of_refused hfault] at hquery
      cases hquery
  | error failure =>
    obtain ⟨fault, rfl, hfault⟩ := parse_ofList_eq_error_iff.1 hquery
    constructor
    · intro h
      cases h
      exact ⟨fault, rfl, hfault⟩
    · rintro ⟨other, rfl, hother⟩
      rw [parse_of_refused hother] at hquery
      cases hquery
      rfl

end SearchCommand.DumpStep

namespace Query

/-- A text is read as a query exactly when it says the query, in any letter case and with blanks
around the name and the value, or when it names a kind that needs no value and has an equals sign
behind the name; what follows that sign is of no account. The texts that are neither are refused,
and it is told whether a value is missing or no kind is named. So the texts that are read are just
those that say a query, but for names with an equals sign behind them. The step of a search is read
and refused as the part before its first colon. -/
theorem queries_are_written_or_surplus (text : String) :
    (∀ query, parse text = .ok query ↔
      Written query text.toList ∨ Surplus query text.toList) ∧
    (∀ failure, parse text = .error failure ↔
      ∃ fault, failure = .invalidQuery fault ∧ Refused text.toList fault) ∧
    ((∃ fault, Refused text.toList fault) ↔
      ∀ query, ¬Written query text.toList ∧ ¬Surplus query text.toList) ∧
    (((∃ query, parse text = .ok query) ↔ ∃ query, Written query text.toList) ↔
      ∀ query, ¬Surplus query text.toList) ∧
    ∀ front dump, text.toList = front ++ ':' :: dump → ':' ∉ front →
      (∀ step, SearchCommand.DumpStep.parse text = .ok step ↔
        (Written step.query front ∨ Surplus step.query front) ∧ step.dump = String.ofList dump) ∧
      ∀ complaint, SearchCommand.DumpStep.parse text = .error complaint ↔
        ∃ fault, complaint = .ofFailure (.invalidQuery fault) ∧ Refused front fault := by
  have hok : ∀ query, parse text = .ok query ↔
      Written query text.toList ∨ Surplus query text.toList := by
    intro query
    rw [← parse_ofList_eq_ok_iff, String.ofList_toList]
  refine ⟨hok, fun failure => ?_, exists_refused_iff, ⟨fun hmeets query hsurplus => ?_,
    fun hnone => ?_⟩, fun front dump htext hplain => ?_⟩
  · rw [← parse_ofList_eq_error_iff, String.ofList_toList]
  · obtain ⟨other, hother⟩ := hmeets.1 ⟨query, (hok query).2 (.inr hsurplus)⟩
    exact hsurplus.not_written hother
  · exact exists_congr fun query => (hok query).trans (or_iff_left (hnone query))
  · exact ⟨fun _ => SearchCommand.DumpStep.parse_eq_ok_iff htext hplain,
      fun _ => SearchCommand.DumpStep.parse_eq_error_iff htext hplain⟩

/-- A step with a second colon in the name of its dump, and one whose value has a minus sign. -/
theorem queries_are_written_or_surplus_of_steps :
    (" Exact = 0x10:a:b".toList = " Exact = 0x10".toList ++ ':' :: "a:b".toList ∧
      ':' ∉ " Exact = 0x10".toList ∧
      SearchCommand.DumpStep.parse " Exact = 0x10:a:b" = .ok ⟨.exact 16, "a:b"⟩) ∧
    "eqplus=-1:now".toList = "eqplus=-1".toList ++ ':' :: "now".toList ∧
      ':' ∉ "eqplus=-1".toList ∧
      SearchCommand.DumpStep.parse "eqplus=-1:now" =
        .error { message := "Invalid search query: 'eqplus=-1' needs a numeric value" } := by
  obtain ⟨_, _, _, _, hread⟩ := queries_are_written_or_surplus " Exact = 0x10:a:b"
  obtain ⟨_, _, _, _, hrefuse⟩ := queries_are_written_or_surplus "eqplus=-1:now"
  constructor
  · have htext : " Exact = 0x10:a:b".toList = " Exact = 0x10".toList ++ ':' :: "a:b".toList := rfl
    have hplain : ':' ∉ " Exact = 0x10".toList := by decide
    have hname : Text.Recased "Exact".toList "exact".toList := Text.recased_map_toLower _
    have hfront : Text.Padded "Exact".toList " Exact ".toList :=
      ⟨[' '], [' '], rfl, List.all_eq_true.1 rfl, List.all_eq_true.1 rfl⟩
    have hback : Numeral.Written " 0x10".toList 16 := Numeral.word?_eq_some_iff.1 (by decide)
    obtain ⟨hok, _⟩ := hread _ _ htext hplain
    exact ⟨htext, hplain,
      (hok ⟨.exact 16, "a:b"⟩).2 ⟨.inl (.withValue rfl hname hfront hback), rfl⟩⟩
  · have htext : "eqplus=-1:now".toList = "eqplus=-1".toList ++ ':' :: "now".toList := rfl
    have hplain : ':' ∉ "eqplus=-1".toList := by decide
    have hname : Names (.equalPlus 0) "eqplus=-1".toList :=
      ⟨_, _, Text.recased_refl _, Text.padded_self _, .inr ⟨"-1".toList, rfl⟩⟩
    obtain ⟨_, herror⟩ := hrefuse _ _ htext hplain
    refine ⟨htext, hplain, (herror _).2 ⟨_, rfl, .valueMissing rfl hname ?_⟩⟩
    intro front back hcut hfront word hword
    have htext : "eqplus=-1".toList = "eqplus".toList ++ '=' :: "-1".toList := rfl
    obtain ⟨_, rfl⟩ := Text.cut_unique (htext.symm.trans hcut) (by decide) hfront
    have hnone : Numeral.word? "-1".toList = none := by decide
    rw [← Numeral.word?_eq_some_iff, hnone] at hword
    cases hword

/-- A kind that needs no value takes one that the query does not use, also in a step. -/
theorem needless_value_is_read :
    parse "eq=5" = .ok .equal ∧
      SearchCommand.DumpStep.parse "eq=5:now" = .ok ⟨.equal, "now"⟩ ∧
      ¬∃ query, Written query "eq=5".toList := by
  have hsurplus : Surplus .equal "eq=5".toList :=
    .intro rfl (Text.recased_refl _) (Text.padded_self _) "5".toList
  refine ⟨by decide +kernel, by decide +kernel, ?_⟩
  rintro ⟨query, hquery⟩
  exact hsurplus.not_written hquery

end Query

end GameTrainer
