import GameTrainer.Proofs.DocumentText

/-!
# The keys of a parsed document

A parser that trims each line, passes over comments and cuts at the first equals sign
only finds keys that it would find again. Main statements: the key on a line can stand at
the beginning of a line; and so can every key of a document that was read from a text.
-/

namespace GameTrainer

namespace Document

/-- The key on a line can stand at the beginning of a line. -/
theorem writable_of_readLine? {line : List Char} {entry : String × String}
    (hline : '\n' ∉ line) (h : readLine? line = some entry) : Writable entry.1 := by
  rw [readLine?] at h
  split at h
  · cases h
  · cases h
  · rename_i text hempty hcomment
    obtain ⟨⟨front, back⟩, hsplit, rfl⟩ := Option.map_eq_some_iff.1 h
    obtain ⟨htext, hequals⟩ := Text.splitFirst_eq_some hsplit
    have hmem : ∀ c ∈ Text.trim front, c ∈ Text.trim line := by
      intro c hc
      rw [htext]
      exact List.mem_append_left _ (Text.mem_of_mem_trim hc)
    constructor
    · rw [String.toList_ofList, Text.trim_trim]
    · rw [String.toList_ofList]
      exact fun hc => hequals (Text.mem_of_mem_trim hc)
    · rw [String.toList_ofList]
      exact fun hc => hline (Text.mem_of_mem_trim (hmem _ hc))
    · rw [String.toList_ofList]
      intro rest heq
      cases front with
      | nil => cases heq
      | cons c later =>
        rw [List.cons_append] at htext
        have hblank : isBlank c = false := Text.isBlank_head (by rw [← htext, Text.trim_trim])
        have hprefix := Text.prefix_of_isBlank_head later hblank
        rw [heq, List.cons_prefix_cons] at hprefix
        rw [← hprefix.1] at htext
        exact hcomment _ htext

/-- Every key of a document that was read can stand at the beginning of a line. -/
theorem writable_keys_parse (text : String) : ∀ key ∈ (parse text).keys, Writable key := by
  intro key hkey
  rw [(lawful_parse text).mem_keys_iff] at hkey
  obtain ⟨value, hvalue⟩ := hkey
  rw [parse, setAll_eq_changeAll] at hvalue
  by_cases hmem : key ∈ (((Text.lines text.toList).filterMap readLine?).map
      fun pair => (pair.1, some pair.2)).map Prod.fst
  · rw [List.map_map] at hmem
    obtain ⟨entry, hentry, rfl⟩ := List.mem_map.1 hmem
    obtain ⟨line, hline, hread⟩ := List.mem_filterMap.1 hentry
    exact writable_of_readLine? (Text.separator_not_mem hline) hread
  · rw [lawful_empty.get?_changeAll_of_not_mem hmem, lawful_empty.get?_eq_some_iff] at hvalue
    cases hvalue

end Document

end GameTrainer
