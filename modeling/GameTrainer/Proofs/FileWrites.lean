import GameTrainer.Failure
import GameTrainer.FileTree

/-!
# Files that were written

A file is read and written at the place that its path leads to, through directories. Writing
puts a file where none or another one was, never where a directory is, so every path that could
be followed before leads to the same place afterwards. Main statements: a file that was written
is read back; and a file at another place is read as before.
-/

namespace GameTrainer

namespace FileTree

/-! ## Places -/

/-- Taking one place out of a tree leaves the others. -/
theorem lookup_filter_ne {nodes : List (List String × FileNode)} {place query : List String}
    (h : query ≠ place) :
    (nodes.filter fun entry => entry.1 ≠ place).lookup query = nodes.lookup query := by
  induction nodes with
  | nil => rfl
  | cons entry rest ih =>
    obtain ⟨found, node⟩ := entry
    rw [List.lookup_cons, List.filter_cons]
    by_cases hfound : found = place
    · have hother : (query == found) = false := beq_eq_false_iff_ne.2 (hfound ▸ h)
      rw [hother, if_neg (by simp [hfound])]
      exact ih
    · rw [if_pos (by simp [hfound]), List.lookup_cons, ih]

/-- What was put at a place stands there, and elsewhere everything stands as before. -/
theorem node?_insert {tree : FileTree} {place : List String} (query : List String)
    (node : FileNode) (h : place ≠ []) :
    (tree.insert place node).node? query =
      if query = place then some node else tree.node? query := by
  rw [node?, node?, insert]
  by_cases hplace : query = place
  · have hroot : query ≠ [] := hplace ▸ h
    rw [if_neg hroot, if_pos hplace, hplace, List.lookup_cons_self]
  · have hother : (query == place) = false := beq_eq_false_iff_ne.2 hplace
    rw [if_neg hplace, List.lookup_cons, hother]
    dsimp only
    rw [lookup_filter_ne hplace]

/-- A name is found in a directory when it is not too long and something stands there. -/
theorem child_eq_ok_iff {tree : FileTree} {place : List String} {name : String}
    {node : FileNode} :
    tree.child place name = .ok node ↔
      name.utf8ByteSize ≤ nameLimit ∧ tree.node? (place ++ [name]) = some node := by
  rw [child]
  by_cases hlong : nameLimit < name.utf8ByteSize
  · rw [if_pos hlong]
    constructor
    · intro h
      cases h
    · rintro ⟨hshort, _⟩
      omega
  · rw [if_neg hlong]
    cases tree.node? (place ++ [name]) with
    | none => simp
    | some found =>
      have hshort : name.utf8ByteSize ≤ nameLimit := by omega
      simp [hshort]

/-- A name is missing in a directory when it is not too long and nothing stands there. -/
theorem child_eq_notFound_iff {tree : FileTree} {place : List String} {name : String} :
    tree.child place name = .error .notFound ↔
      name.utf8ByteSize ≤ nameLimit ∧ tree.node? (place ++ [name]) = none := by
  rw [child]
  by_cases hlong : nameLimit < name.utf8ByteSize
  · rw [if_pos hlong]
    constructor
    · intro h
      cases h
    · rintro ⟨hshort, _⟩
      omega
  · rw [if_neg hlong]
    have hshort : name.utf8ByteSize ≤ nameLimit := by omega
    cases tree.node? (place ++ [name]) with
    | none => simp [hshort]
    | some found => simp

/-! ## Paths through directories -/

section Following

variable {tree : FileTree} {place : List String} (node : FileNode)

/-- A directory that could be entered can be entered when something is put where no directory
is. -/
theorem enter_insert (hroot : place ≠ []) (hplace : tree.node? place ≠ some .directory)
    {parent entered : List String} {name : String} (h : tree.enter parent name = .ok entered) :
    (tree.insert place node).enter parent name = .ok entered := by
  rw [enter] at h ⊢
  by_cases hpoint : name = "."
  · rw [if_pos hpoint] at h ⊢
    exact h
  · rw [if_neg hpoint] at h ⊢
    by_cases hpoints : name = ".."
    · rw [if_pos hpoints] at h ⊢
      exact h
    · rw [if_neg hpoints] at h ⊢
      cases hchild : tree.child parent name with
      | error fault =>
        rw [hchild] at h
        cases h
      | ok found =>
        rw [hchild] at h
        cases found with
        | file content => cases h
        | directory =>
          obtain ⟨hshort, hfound⟩ := child_eq_ok_iff.1 hchild
          have hne : parent ++ [name] ≠ place := by
            rintro rfl
            exact hplace hfound
          have hsame : (tree.insert place node).child parent name = .ok .directory := by
            rw [child_eq_ok_iff, node?_insert _ node hroot, if_neg hne]
            exact ⟨hshort, hfound⟩
          rw [hsame]
          exact h

theorem follow_insert (hroot : place ≠ []) (hplace : tree.node? place ≠ some .directory)
    {parent reached : List String} {names : List String}
    (h : tree.follow parent names = .ok reached) :
    (tree.insert place node).follow parent names = .ok reached := by
  induction names generalizing parent with
  | nil => exact h
  | cons name rest ih =>
    rw [follow, List.foldlM_cons] at h ⊢
    obtain ⟨entered, hentered, hrest⟩ := exists_of_bind_eq_ok h
    rw [enter_insert node hroot hplace hentered]
    exact ih hrest

/-- A path that could be followed leads to the same place when something is put where no
directory is. -/
theorem locate_insert (hroot : place ≠ []) (hplace : tree.node? place ≠ some .directory)
    {path : String} {target : Target} (h : tree.locate path = .ok target) :
    (tree.insert place node).locate path = .ok target := by
  rw [locate] at h ⊢
  split at h
  · cases h
  · rename_i hnul
    split at h
    · cases h
    · rename_i hempty
      split at h
      · cases h
      · rename_i hlong
        rw [if_neg hnul, if_neg hempty, if_neg hlong]
        cases hlast : (FilePath.parts path).getLast? with
        | none =>
          rw [hlast] at h
          exact h
        | some last =>
          rw [hlast] at h
          obtain ⟨reached, hreached, htarget⟩ := exists_of_map_eq_ok h
          have hsame : (tree.insert place node).follow ((tree.insert place node).start path)
              (FilePath.parts path).dropLast = .ok reached :=
            follow_insert node hroot hplace hreached
          dsimp only
          rw [hsame]
          exact congrArg Except.ok htarget

end Following

/-! ## Reading and writing -/

/-- A file is read where its path leads to a name that stands for it, unless the path ends in a
slash. -/
theorem read_eq_ok_iff {tree : FileTree} {path : String} {content : Bytes} :
    tree.read path = .ok content ↔
      ∃ parent last, tree.locate path = .ok (.name parent last) ∧
        tree.child parent last = .ok (.file content) ∧ FilePath.endsInSlash path = false := by
  constructor
  · intro h
    obtain ⟨found, hfind, hread⟩ := exists_of_bind_eq_ok h
    obtain ⟨target, hlocate, htarget⟩ := exists_of_bind_eq_ok hfind
    cases target with
    | directory =>
      cases htarget
      cases hread
    | name parent last =>
      obtain ⟨node, hchild, hnode⟩ := exists_of_bind_eq_ok htarget
      cases node with
      | directory =>
        cases hnode
        cases hread
      | file stored =>
        dsimp only at hnode
        split at hnode
        · cases hnode
        · rename_i hslash
          cases hnode
          cases hread
          exact ⟨parent, last, hlocate, hchild, Bool.not_eq_true _ ▸ hslash⟩
  · rintro ⟨parent, last, hlocate, hchild, hslash⟩
    have hfind : tree.find path = .ok (.file content) := by
      rw [find, hlocate]
      dsimp only [bind, Except.bind]
      rw [hchild]
      dsimp only
      rw [hslash]
      rfl
    rw [read, hfind]
    rfl

/-- A file is written where its path leads to a name that is not too long and stands for no
directory, unless the path ends in a slash. -/
theorem write_eq_ok {tree written : FileTree} {path : String} {content : Bytes}
    (h : tree.write path content = .ok written) :
    ∃ parent last, tree.locate path = .ok (.name parent last) ∧
      FilePath.endsInSlash path = false ∧ last.utf8ByteSize ≤ nameLimit ∧
      tree.node? (parent ++ [last]) ≠ some .directory ∧
      written = tree.insert (parent ++ [last]) (.file content) := by
  obtain ⟨target, htarget, h⟩ := exists_of_bind_eq_ok h
  cases target with
  | directory => cases h
  | name parent last =>
    dsimp only at h
    split at h
    · cases h
    · rename_i hslash
      have hplace : last.utf8ByteSize ≤ nameLimit ∧
          tree.node? (parent ++ [last]) ≠ some .directory ∧
          written = tree.insert (parent ++ [last]) (.file content) := by
        cases hchild : tree.child parent last with
        | ok node =>
          rw [hchild] at h
          cases node with
          | directory => cases h
          | file stored =>
            obtain ⟨hshort, hstored⟩ := child_eq_ok_iff.1 hchild
            cases h
            rw [hstored]
            exact ⟨hshort, by simp, rfl⟩
        | error fault =>
          rw [hchild] at h
          cases fault with
          | notFound =>
            obtain ⟨hshort, hnone⟩ := child_eq_notFound_iff.1 hchild
            cases h
            rw [hnone]
            exact ⟨hshort, by simp, rfl⟩
          | _ => cases h
      exact ⟨parent, last, htarget, Bool.not_eq_true _ ▸ hslash, hplace⟩

/-- A file that was written is read back. -/
theorem read_write_self {tree written : FileTree} {path : String} {content : Bytes}
    (h : tree.write path content = .ok written) : written.read path = .ok content := by
  obtain ⟨parent, last, hlocate, hslash, hshort, hplace, rfl⟩ := write_eq_ok h
  have hroot : parent ++ [last] ≠ [] := List.concat_ne_nil _ _
  rw [read_eq_ok_iff]
  refine ⟨parent, last, locate_insert _ hroot hplace hlocate, ?_, hslash⟩
  rw [child_eq_ok_iff, node?_insert _ _ hroot, if_pos rfl]
  exact ⟨hshort, rfl⟩

/-- A file that was read is read as before when another one was written, that is, one whose path
leads elsewhere. -/
theorem read_write_of_ne {tree written : FileTree} {path other : String}
    {content stored : Bytes} (h : tree.write path content = .ok written)
    (hread : tree.read other = .ok stored) (hne : tree.locate path ≠ tree.locate other) :
    written.read other = .ok stored := by
  obtain ⟨parent, last, hlocate, _, _, hplace, rfl⟩ := write_eq_ok h
  obtain ⟨place, name, hother, hchild, hslash⟩ := read_eq_ok_iff.1 hread
  have hroot : parent ++ [last] ≠ [] := List.concat_ne_nil _ _
  have helse : place ++ [name] ≠ parent ++ [last] := by
    intro heq
    obtain ⟨hparent, hlast⟩ := List.append_inj' heq rfl
    cases hlast
    rw [hlocate, hother, hparent] at hne
    exact hne rfl
  rw [child_eq_ok_iff] at hchild
  rw [read_eq_ok_iff]
  refine ⟨place, name, locate_insert _ hroot hplace hother, ?_, hslash⟩
  rw [child_eq_ok_iff, node?_insert _ _ hroot, if_neg helse]
  exact hchild

end FileTree

/-! ## Texts -/

/-- The bytes of a text are read as the text. -/
theorem decodeText_encodeText (text : String) : decodeText (encodeText text) = .ok text := by
  have hutf8 : String.fromUTF8? ⟨encodeText text⟩ = some text := dif_pos text.isValidUTF8
  rw [decodeText, hutf8]

/-- Bytes are read as a text when they are those of the text. -/
theorem decodeText_eq_ok_iff {content : Bytes} {text : String} :
    decodeText content = .ok text ↔ content = encodeText text := by
  constructor
  · intro h
    rw [decodeText] at h
    by_cases hvalid : ByteArray.IsValidUTF8 ⟨content⟩
    · have hutf8 : String.fromUTF8? ⟨content⟩ = some (String.fromUTF8 ⟨content⟩ hvalid) :=
        dif_pos hvalid
      rw [hutf8] at h
      cases h
      rfl
    · have hutf8 : String.fromUTF8? ⟨content⟩ = none := dif_neg hvalid
      rw [hutf8] at h
      cases h
  · rintro rfl
    exact decodeText_encodeText text

/-- Bytes are read as no text when they are no text's. -/
theorem decodeText_eq_error_iff {content : Bytes} {fault : FileFault} :
    decodeText content = .error fault ↔
      (∀ text, content ≠ encodeText text) ∧ fault = .notText := by
  constructor
  · intro h
    have hother : ∀ text, content ≠ encodeText text := by
      intro text htext
      rw [decodeText_eq_ok_iff.2 htext] at h
      cases h
    rw [decodeText] at h
    split at h
    · cases h
    · cases h
      exact ⟨hother, rfl⟩
  · rintro ⟨hother, rfl⟩
    rw [decodeText]
    cases hutf8 : String.fromUTF8? ⟨content⟩ with
    | some text =>
      have htext : decodeText content = .ok text := by rw [decodeText, hutf8]
      exact absurd (decodeText_eq_ok_iff.1 htext) (hother text)
    | none => rfl

end GameTrainer
