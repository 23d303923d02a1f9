/-!
# Splitting texts

Cutting a text at every place where a given character stands, or at the first
one only. Main statements: no piece holds the separator, and a text cut once is
its two parts with the separator between them.
-/

namespace GameTrainer.Text

/-- The pieces of a text between separators, empty ones too. -/
def splitAll (separator : Char) : List Char → List (List Char)
  | [] => [[]]
  | c :: rest =>
    if c = separator then [] :: splitAll separator rest
    else
      match splitAll separator rest with
      | [] => [[c]]
      | piece :: later => (c :: piece) :: later

/-- The lines of a text. A final line feed leaves an empty last line. -/
def lines (text : List Char) : List (List Char) :=
  splitAll '\n' text

/-- The parts before and after the first separator, if there is one. -/
def splitFirst (separator : Char) : List Char → Option (List Char × List Char)
  | [] => none
  | c :: rest =>
    if c = separator then some ([], rest)
    else (splitFirst separator rest).map fun parts => (c :: parts.1, parts.2)

theorem splitAll_ne_nil (separator : Char) (text : List Char) :
    splitAll separator text ≠ [] := by
  cases text with
  | nil => simp [splitAll]
  | cons c rest =>
    rw [splitAll]
    split
    · simp
    · split <;> simp

/-- No piece holds the separator. -/
theorem separator_not_mem {separator : Char} {text piece : List Char}
    (h : piece ∈ splitAll separator text) : separator ∉ piece := by
  induction text generalizing piece with
  | nil => simp_all [splitAll]
  | cons c rest ih =>
    rw [splitAll] at h
    split at h
    · rcases List.mem_cons.1 h with rfl | hl
      · simp
      · exact ih hl
    · rename_i hc
      split at h
      · rename_i hnil
        exact absurd hnil (splitAll_ne_nil separator rest)
      · rename_i first later heq
        rcases List.mem_cons.1 h with rfl | hl
        · have : separator ∉ first := ih (by simp [heq])
          simp [this, Ne.symm hc]
        · exact ih (by simp [heq, hl])

/-- A cut text is its two parts with the separator between them, and the first
part holds no separator. -/
theorem splitFirst_eq_some {separator : Char} {text front back : List Char}
    (h : splitFirst separator text = some (front, back)) :
    text = front ++ separator :: back ∧ separator ∉ front := by
  induction text generalizing front with
  | nil => simp [splitFirst] at h
  | cons c rest ih =>
    rw [splitFirst] at h
    split at h
    · rename_i hc
      cases h
      simp [hc]
    · rename_i hc
      obtain ⟨parts, hparts, heq⟩ := Option.map_eq_some_iff.1 h
      cases heq
      have hrest : splitFirst separator rest = some (parts.1, parts.2) := hparts
      obtain ⟨htext, hmem⟩ := ih hrest
      exact ⟨by rw [htext]; rfl, by simp [hmem, Ne.symm hc]⟩

/-- Cutting finds the first separator. -/
theorem splitFirst_append {separator : Char} {front : List Char} (back : List Char)
    (h : separator ∉ front) :
    splitFirst separator (front ++ separator :: back) = some (front, back) := by
  induction front with
  | nil => simp [splitFirst]
  | cons c rest ih =>
    have hc : c ≠ separator := fun heq => h (by simp [heq])
    have hrest : separator ∉ rest := fun hm => h (List.mem_cons_of_mem c hm)
    rw [List.cons_append, splitFirst, if_neg hc, ih hrest]
    rfl

/-- A text has one first separator. -/
theorem cut_unique {separator : Char} {front back front' back' : List Char}
    (h : front ++ separator :: back = front' ++ separator :: back') (hfront : separator ∉ front)
    (hfront' : separator ∉ front') : front = front' ∧ back = back' := by
  have hcut := splitFirst_append back hfront
  rw [h, splitFirst_append back' hfront'] at hcut
  cases hcut
  exact ⟨rfl, rfl⟩

/-- A text without the separator is not cut. -/
theorem splitFirst_eq_none {separator : Char} {text : List Char} (h : separator ∉ text) :
    splitFirst separator text = none := by
  cases hparts : splitFirst separator text with
  | none => rfl
  | some parts =>
    have hcut : splitFirst separator text = some (parts.1, parts.2) := hparts
    obtain ⟨htext, -⟩ := splitFirst_eq_some hcut
    exact absurd (htext ▸ List.mem_append_right _ List.mem_cons_self) h

end GameTrainer.Text
