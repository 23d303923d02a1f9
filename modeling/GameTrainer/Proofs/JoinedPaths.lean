import GameTrainer.FilePath
import GameTrainer.FileTree
import GameTrainer.Failure

/-!
# Paths that were joined

A path that is joined to a directory without starting at the root goes through the names of the
directory first, and through its own then. Main statements: the names of the joined path are those
of its two sides, it begins with the text of the directory and starts where the directory does;
and names other than two points lead from a place to places behind it only.
-/

namespace GameTrainer

namespace Text

/-- A text is split at each separator, so its two sides are split on their own. -/
theorem splitAll_append_separator (separator : Char) (front back : List Char) :
    splitAll separator (front ++ separator :: back) =
      splitAll separator front ++ splitAll separator back := by
  induction front with
  | nil =>
    have hback : splitAll separator (separator :: back) = [] :: splitAll separator back := by
      rw [splitAll, if_pos rfl]
    rw [List.nil_append, hback]
    rfl
  | cons c rest ih =>
    rw [List.cons_append, splitAll, splitAll]
    by_cases hc : c = separator
    · rw [if_pos hc, if_pos hc, ih, List.cons_append]
    · rw [if_neg hc, if_neg hc, ih]
      cases hrest : splitAll separator rest with
      | nil => exact absurd hrest (splitAll_ne_nil separator rest)
      | cons piece later => rfl

/-- A text without the separator is one piece. -/
theorem splitAll_of_not_mem {separator : Char} {text : List Char} (h : separator ∉ text) :
    splitAll separator text = [text] := by
  induction text with
  | nil => rfl
  | cons c rest ih =>
    rw [List.mem_cons, not_or] at h
    rw [splitAll, if_neg (Ne.symm h.1), ih h.2]

end Text

namespace FilePath

theorem parts_append_slash (front back : String) :
    parts (front ++ "/" ++ back) = parts front ++ parts back := by
  have htext : (front ++ "/" ++ back).toList = front.toList ++ '/' :: back.toList := by
    rw [String.toList_append, String.toList_append, List.append_assoc]
    rfl
  rw [parts, pieces, htext, Text.splitAll_append_separator, List.map_append, List.filter_append]
  rfl

/-- A text without a slash is a name, unless it is empty. -/
theorem parts_of_slash_not_mem {name : String} (h : '/' ∉ name.toList) :
    parts name = if name = "" then [] else [name] := by
  rw [parts, pieces, Text.splitAll_of_not_mem h, List.map_singleton, String.ofList_toList,
    List.filter_cons]
  by_cases hname : name = ""
  · rw [if_pos hname, if_neg (by simp [hname])]
    rfl
  · rw [if_neg hname, if_pos (decide_eq_true hname)]
    rfl

/-- A path that ends in a slash has a text in front of it. -/
theorem exists_of_endsInSlash {path : String} (h : endsInSlash path = true) :
    ∃ front : String, path = front ++ "/" := by
  have hlast : path.toList.getLast? = some '/' := of_decide_eq_true h
  obtain ⟨front, hfront⟩ := List.getLast?_eq_some_iff.1 hlast
  refine ⟨String.ofList front, ?_⟩
  rw [← String.toList_inj, hfront, String.toList_append, String.toList_ofList]
  rfl

variable (directory : String) {path : String}

/-- A path that does not start at the root is appended to the directory, behind a slash if there
is none. -/
theorem join_of_relative (h : isAbsolute path = false) :
    join directory path = directory ++ path ∧ (directory = "" ∨ endsInSlash directory = true) ∨
      join directory path = directory ++ "/" ++ path ∧ directory ≠ "" := by
  rw [join, h, if_neg Bool.false_ne_true]
  by_cases hempty : directory = ""
  · left
    rw [hempty]
    exact ⟨rfl, .inl rfl⟩
  · have hsome : directory.isEmpty = false := by
      rw [← Bool.not_eq_true, String.isEmpty_iff]
      exact hempty
    rw [hsome, Bool.false_or]
    by_cases hslash : endsInSlash directory = true
    · rw [if_pos hslash]
      exact .inl ⟨rfl, .inr hslash⟩
    · rw [if_neg hslash]
      exact .inr ⟨rfl, hempty⟩

/-- A joined path goes through the names of its two sides. -/
theorem parts_join (h : isAbsolute path = false) :
    parts (join directory path) = parts directory ++ parts path := by
  obtain ⟨hjoin, hempty | hslash⟩ | ⟨hjoin, _⟩ := join_of_relative directory h
  · rw [hjoin, hempty, String.empty_append]
    rfl
  · obtain ⟨front, rfl⟩ := exists_of_endsInSlash hslash
    have hfront : parts (front ++ "/") = parts front := by
      have happend := parts_append_slash front ""
      rw [String.append_empty] at happend
      rw [happend]
      exact List.append_nil _
    rw [hjoin, parts_append_slash, hfront]
  · rw [hjoin, parts_append_slash]

/-- A joined path begins with the text of the directory. -/
theorem prefix_join (h : isAbsolute path = false) :
    directory.toList <+: (join directory path).toList := by
  obtain ⟨hjoin, _⟩ | ⟨hjoin, _⟩ := join_of_relative directory h
  · rw [hjoin, String.toList_append]
    exact List.prefix_append _ _
  · rw [hjoin, String.append_assoc, String.toList_append]
    exact List.prefix_append _ _

/-- A joined path starts at the root when the directory does. -/
theorem isAbsolute_join (h : isAbsolute path = false) :
    isAbsolute (join directory path) = isAbsolute directory := by
  by_cases hempty : directory = ""
  · rw [hempty, join, h, if_neg Bool.false_ne_true]
    exact h
  · obtain ⟨rest, hrest⟩ := prefix_join directory h
    rw [isAbsolute, isAbsolute, ← hrest]
    cases htext : directory.toList with
    | nil => exact absurd (String.toList_eq_nil_iff.1 htext) hempty
    | cons c later => rfl

end FilePath

namespace FileTree

variable {tree : FileTree} {place reached : List String}

theorem follow_append (tree : FileTree) (place first later : List String) :
    tree.follow place (first ++ later) =
      (tree.follow place first).bind fun between => tree.follow between later := by
  rw [follow, List.foldlM_append]
  rfl

/-- A name other than two points leads to the place itself or to one in it. -/
theorem prefix_of_enter {name : String} (hname : name ≠ "..")
    (h : tree.enter place name = .ok reached) : place <+: reached := by
  rw [enter, if_neg hname] at h
  split at h
  · cases h
    exact List.prefix_refl place
  · split at h
    · cases h
      exact List.prefix_append place [name]
    · cases h
    · cases h

/-- Names other than two points lead from a place to itself or to one behind it. -/
theorem prefix_of_follow {names : List String} (hnames : ".." ∉ names)
    (h : tree.follow place names = .ok reached) : place <+: reached := by
  induction names generalizing place with
  | nil =>
    cases h
    exact List.prefix_refl _
  | cons name rest ih =>
    rw [List.mem_cons, not_or] at hnames
    rw [follow, List.foldlM_cons] at h
    obtain ⟨entered, hentered, hrest⟩ := exists_of_bind_eq_ok h
    exact (prefix_of_enter (Ne.symm hnames.1) hentered).trans (ih hnames.2 hrest)

/-- A path that leads to a name goes through its other names to the place of it. -/
theorem follow_of_locate {path last : String} (h : tree.locate path = .ok (.name place last)) :
    (FilePath.parts path).getLast? = some last ∧
      tree.follow (tree.start path) (FilePath.parts path).dropLast = .ok place := by
  rw [locate] at h
  split at h
  · cases h
  · split at h
    · cases h
    · split at h
      · cases h
      · cases hlast : (FilePath.parts path).getLast? with
        | none =>
          rw [hlast] at h
          cases h
        | some name =>
          rw [hlast] at h
          obtain ⟨reached, hreached, htarget⟩ := exists_of_map_eq_ok h
          split at htarget
          · cases htarget
          · cases htarget
            exact ⟨rfl, hreached⟩

end FileTree

end GameTrainer
