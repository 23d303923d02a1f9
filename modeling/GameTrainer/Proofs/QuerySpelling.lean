import GameTrainer.SearchQuery
import GameTrainer.Proofs.NumeralSpelling

/-!
# Spellings of a query

A query is written as the name of its kind, and with an equals sign and a numeral where it has a
value. Main statement: a query is read from its own text, and from every other text with the same
name in any letter case, any numeral for the same value, and any blanks around the two.
-/

namespace GameTrainer.Query

/-- A text says a query: its name in any letter case, and behind the first equals sign a numeral
for its value, if it has one; blanks may stand around both. -/
inductive Written : Query → List Char → Prop where
  /-- A kind without a value is its name alone. -/
  | bare {query : Query} {text word : List Char} (hnone : query.operand? = none)
      (hname : Text.Recased word query.name.toList) (htext : Text.Padded word text) :
      Written query text
  /-- A kind with a value is its name and a numeral. -/
  | withValue {query : Query} {value : UInt32} {front word back : List Char}
      (hvalue : query.operand? = some value) (hname : Text.Recased word query.name.toList)
      (hfront : Text.Padded word front) (hback : Numeral.Written back value) :
      Written query (front ++ '=' :: back)

/-- The name of a kind is written in small letters, without blanks and equals signs. -/
theorem name_plain (query : Query) : query.name.toList.map Char.toLower = query.name.toList ∧
    (query.name.toList.all fun c => !isBlank c && c != '=') = true := by
  cases query <;> dsimp only [name] <;> decide

/-- The name of a kind that needs no value stands for the query. -/
theorem kind?_name_of_none {query : Query} (h : query.operand? = none) :
    kind? query.name = some (.complete query) := by
  cases query <;> first | rfl | cases h

/-- The name of a kind with a value stands for the query once it has its value. -/
theorem kind?_name_of_some {query : Query} {value : UInt32} (h : query.operand? = some value) :
    ∃ make, kind? query.name = some (.withValue make) ∧ make value = query := by
  cases query <;> first | exact ⟨_, rfl, congrArg _ (Option.some.inj h).symm⟩ | cases h

/-- A name in any letter case is plain too. -/
theorem recased_name_plain {query : Query} {word : List Char}
    (h : Text.Recased word query.name.toList) : ∀ c ∈ word, isBlank c = false ∧ c ≠ '=' := by
  intro c hc
  have hmem : c.toLower ∈ query.name.toList := by
    rw [← query.name_plain.1, ← h.map_toLower]
    exact List.mem_map_of_mem hc
  have hplain := List.all_eq_true.1 query.name_plain.2 _ hmem
  rw [Bool.and_eq_true, Bool.not_eq_true', isBlank_toLower, bne_iff_ne] at hplain
  refine ⟨hplain.1, ?_⟩
  rintro rfl
  exact hplain.2 rfl

/-- Between blanks and in any letter case, a name is found. -/
theorem folded_name {query : Query} {word text : List Char}
    (hname : Text.Recased word query.name.toList) (htext : Text.Padded word text) :
    String.ofList ((Text.trim text).map Char.toLower) = query.name := by
  have htrim := Text.trim_of_no_blank fun c hc => (recased_name_plain hname c hc).1
  rw [Text.trim_of_padded htext htrim, hname.map_toLower, query.name_plain.1, String.ofList_toList]

/-- A name between blanks has no equals sign in it. -/
theorem equals_not_mem {query : Query} {word text : List Char}
    (hname : Text.Recased word query.name.toList) (htext : Text.Padded word text) :
    '=' ∉ text := by
  obtain ⟨front, back, rfl, hfront, hback⟩ := htext
  have hblank : isBlank '=' = false := rfl
  intro hmem
  obtain hmem | hmem := List.mem_append.1 hmem
  · obtain hmem | hmem := List.mem_append.1 hmem
    · exact absurd (hfront _ hmem) (by rw [hblank]; decide)
    · exact (recased_name_plain hname _ hmem).2 rfl
  · exact absurd (hback _ hmem) (by rw [hblank]; decide)

/-- A text that says a query is read as it. -/
theorem parse_of_written {query : Query} {text : String} (h : Written query text.toList) :
    parse text = .ok query := by
  generalize hlist : text.toList = list at h
  rw [parse, hlist]
  cases h with
  | bare hnone hname htext =>
    rw [Text.splitFirst_eq_none (equals_not_mem hname htext)]
    dsimp only
    rw [folded_name hname htext, kind?_name_of_none hnone]
  | withValue hvalue hname hfront hback =>
    obtain ⟨make, hkind, hmake⟩ := kind?_name_of_some hvalue
    rw [Text.splitFirst_append _ (equals_not_mem hname hfront)]
    dsimp only
    rw [folded_name hname hfront, hkind]
    dsimp only
    rw [Option.bind_some, Numeral.word?_eq_some_iff.2 hback]
    dsimp only
    rw [hmake]

/-- The text of a query says it. -/
theorem written_render (query : Query) : Written query query.render.toList := by
  rw [render]
  cases hvalue : query.operand? with
  | none => exact .bare hvalue (Text.recased_refl _) (Text.padded_self _)
  | some value =>
    have htext : (query.name ++ "=" ++ toString value.toNat).toList =
        query.name.toList ++ '=' :: (toString value.toNat).toList := by
      rw [String.toList_append, String.toList_append, List.append_assoc]
      rfl
    dsimp only
    rw [htext]
    exact .withValue hvalue (Text.recased_refl _) (Text.padded_self _)
      ⟨_, Text.padded_self _, Numeral.spells_toString _⟩

/-- A query is read from its own text, and from every text with its name in any letter case and a
numeral for its value, with any blanks around the two. The value may be given by its decimal
digits, or by its hexadecimal ones in any letter case, behind any number of zeros. What is read as
a value is, between blanks, a decimal or hexadecimal numeral, with or without a plus sign, whose
number is in the range of words. -/
theorem parse_of_any_spelling :
    (∀ query : Query, Written query query.render.toList ∧ parse query.render = .ok query) ∧
    (∀ query text, Written query text.toList → parse text = .ok query) ∧
    (∀ (value : UInt32) (zeros : Nat),
      Numeral.Spells (List.replicate zeros '0' ++ Nat.toDigits 10 value.toNat) value.toNat) ∧
    (∀ (value : UInt32) (zeros : Nat) (x : Char) (digits : List Char), x = 'x' ∨ x = 'X' →
      Text.Recased digits (Nat.toDigits 16 value.toNat) →
      Numeral.Spells ('0' :: x :: (List.replicate zeros '0' ++ digits)) value.toNat) ∧
    ∀ text value, Numeral.word? text = some value ↔ Numeral.Written text value := by
  refine ⟨fun query => ⟨query.written_render, parse_of_written query.written_render⟩,
    fun _ _ => parse_of_written, fun value zeros => ?_, fun value zeros x digits hx hdigits => ?_,
    fun _ _ => Numeral.word?_eq_some_iff⟩
  · have hdecimal : Numeral.Denotes 10 (Nat.toDigits 10 value.toNat) value.toNat :=
      Numeral.denotes_toDigits (by decide) (by decide) _
    exact .decimal (.plain (hdecimal.zeros (by decide) zeros))
  · have hhex : Numeral.Denotes 16 (Nat.toDigits 16 value.toNat) value.toNat :=
      Numeral.denotes_toDigits (by decide) (by decide) _
    exact .hexadecimal hx (.plain ((hhex.recased hdigits.map_toLower).zeros (by decide) zeros))

/-- Letters in both cases, blanks of several kinds, and zeros before the digits do not count. -/
theorem parse_of_any_spelling_of_mixed_case :
    parse "\t EqPlus\u2003=\u3000 0X00fF\n" = .ok (.equalPlus 255) := by
  obtain ⟨-, hparse, -, hhexadecimal, -⟩ := parse_of_any_spelling
  have hdigits : Text.Recased "fF".toList (Nat.toDigits 16 255) :=
    .cons (.inl rfl) (.cons (.inr (.inr rfl)) .nil)
  have hnumeral : Numeral.Written "\u3000 0X00fF\n".toList 255 :=
    ⟨"0X00fF".toList,
      ⟨['\u3000', ' '], ['\n'], rfl, List.all_eq_true.1 rfl, List.all_eq_true.1 rfl⟩,
      hhexadecimal 255 2 'X' _ (.inr rfl) hdigits⟩
  have hname : Text.Recased "EqPlus".toList "eqplus".toList :=
    .cons (.inr (.inr rfl)) (.cons (.inl rfl) (.cons (.inr (.inr rfl))
      (.cons (.inl rfl) (.cons (.inl rfl) (.cons (.inl rfl) .nil)))))
  have hfront : Text.Padded "EqPlus".toList "\t EqPlus\u2003".toList :=
    ⟨['\t', ' '], ['\u2003'], rfl, List.all_eq_true.1 rfl, List.all_eq_true.1 rfl⟩
  exact hparse (.equalPlus 255) _ (.withValue rfl hname hfront hnumeral)

end GameTrainer.Query
