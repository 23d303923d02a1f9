import GameTrainer.KeyValueDocument

/-!
# Documents as maps

A document is lawful when its index finds exactly its keys, each at its place, and
when all its values stand on one line. Main statements: the empty document is
lawful, and setting or removing a key keeps a document lawful; the value of a key
is the one beside it in the list of entries, where no key stands twice; and
setting or removing one key leaves the values of all others.
-/

namespace GameTrainer.Document

/-- A value that stands on one line is kept as it is. -/
theorem flatten_eq_self {value : String} (h : ∀ c ∈ value.toList, c ≠ '\r' ∧ c ≠ '\n') :
    flatten value = value := by
  have hmap : value.toList.map (fun c => if c = '\r' ∨ c = '\n' then ' ' else c) =
      value.toList := by
    conv => rhs; rw [← List.map_id value.toList]
    apply List.map_congr_left
    intro c hc
    obtain ⟨hr, hn⟩ := h c hc
    exact if_neg fun hor => hor.elim hr hn
  rw [flatten, hmap, String.ofList_toList]

/-- A flattened value has no line end. -/
theorem ne_of_mem_flatten {value : String} {c : Char} (h : c ∈ (flatten value).toList) :
    c ≠ '\r' ∧ c ≠ '\n' := by
  rw [flatten, String.toList_ofList] at h
  obtain ⟨d, _, rfl⟩ := List.mem_map.1 h
  split
  · decide
  · rename_i hn
    exact not_or.1 hn

/-- Flattening twice is flattening once. -/
theorem flatten_flatten (value : String) : flatten (flatten value) = flatten value :=
  flatten_eq_self fun _ h => ne_of_mem_flatten h

/-- The keys, in order. -/
def keys (document : Document) : List String :=
  document.toList.map Prod.fst

/-- A document whose index is right and whose values stand on one line. -/
structure Lawful (document : Document) : Prop where
  /-- The index finds exactly the keys, each at its place. -/
  indexed : document.WellIndexed
  /-- Each value stands on one line. -/
  flat : ∀ entry ∈ document.toList, flatten entry.2 = entry.2

theorem mem_toList_iff {document : Document} {entry : String × String} :
    entry ∈ document.toList ↔ ∃ place : Nat, document.entries[place]? = some entry := by
  rw [toList, List.mem_iff_getElem?]
  simp only [Array.getElem?_toList]

/-- A key has no place when it is not among the keys. -/
theorem WellIndexed.places_eq_none_iff {document : Document} (h : document.WellIndexed)
    {key : String} : document.places[key]? = none ↔ key ∉ document.keys := by
  rw [Option.eq_none_iff_forall_ne_some]
  constructor
  · intro hnone hmem
    obtain ⟨entry, hentry, rfl⟩ := List.mem_map.1 hmem
    obtain ⟨place, hplace⟩ := mem_toList_iff.1 hentry
    apply hnone place
    rw [h, hplace]
    rfl
  · intro hmem place hplace
    obtain ⟨entry, hentry, hkey⟩ := Option.map_eq_some_iff.1 ((h key place).1 hplace)
    exact hmem (List.mem_map.2 ⟨entry, mem_toList_iff.2 ⟨place, hentry⟩, hkey⟩)

theorem lawful_empty : ({} : Document).Lawful where
  indexed := by
    intro key place
    simp
  flat := by
    intro entry h
    cases h

/-! ## The value of a key -/

/-- The value of a key is the one beside it. -/
theorem Lawful.get?_eq_some_iff {document : Document} (h : document.Lawful) {key value : String} :
    document.get? key = some value ↔ (key, value) ∈ document.toList := by
  rw [get?, Option.bind_eq_some_iff, mem_toList_iff]
  constructor
  · rintro ⟨place, hplace, hvalue⟩
    obtain ⟨entry, hentry, rfl⟩ := Option.map_eq_some_iff.1 hvalue
    have hkey := (h.indexed key place).1 hplace
    rw [hentry, Option.map_some, Option.some.injEq] at hkey
    refine ⟨place, ?_⟩
    rw [hentry, ← hkey]
  · rintro ⟨place, hentry⟩
    refine ⟨place, ?_, ?_⟩
    · rw [h.indexed, hentry]
      rfl
    · rw [hentry]
      rfl

/-- The keys are those that have a value. -/
theorem Lawful.mem_keys_iff {document : Document} (h : document.Lawful) {key : String} :
    key ∈ document.keys ↔ ∃ value, document.get? key = some value := by
  simp only [keys, List.mem_map, h.get?_eq_some_iff]
  constructor
  · rintro ⟨entry, hentry, rfl⟩
    exact ⟨entry.2, hentry⟩
  · rintro ⟨value, hvalue⟩
    exact ⟨_, hvalue, rfl⟩

/-- No key stands twice. -/
theorem Lawful.nodup_keys {document : Document} (h : document.Lawful) : document.keys.Nodup := by
  rw [List.Nodup, List.pairwise_iff_getElem]
  intro i j hi hj hij heq
  have hfind : ∀ (place : Nat) (key : String), document.keys[place]? = some key →
      document.places[key]? = some place := by
    intro place key hkey
    rw [keys, toList, List.getElem?_map, Array.getElem?_toList] at hkey
    exact (h.indexed key place).2 hkey
  have hfirst := hfind i _ (List.getElem?_eq_getElem hi)
  have hsecond := hfind j _ (List.getElem?_eq_getElem hj)
  rw [heq, hsecond, Option.some.injEq] at hfirst
  omega

/-- Documents with the same entries give each key the same value. -/
theorem Lawful.get?_congr {first second : Document} (hf : first.Lawful) (hs : second.Lawful)
    (h : first.toList = second.toList) (key : String) : first.get? key = second.get? key := by
  apply Option.ext
  intro value
  rw [hf.get?_eq_some_iff, hs.get?_eq_some_iff, h]

/-! ## Setting a key -/

/-- A key that is there keeps its place, and takes the value. -/
theorem set_of_some {document : Document} {key : String} {place : Nat} (value : String)
    (h : document.places[key]? = some place) :
    document.set key value =
      { document with
        entries := document.entries.modify place fun entry => (entry.1, flatten value) } := by
  rw [set, h]

/-- A key that is not there comes to the end. -/
theorem set_of_none {document : Document} {key : String} (value : String)
    (h : document.places[key]? = none) :
    document.set key value =
      { entries := document.entries.push (key, flatten value),
        places := document.places.insert key document.entries.size } := by
  rw [set, h]

theorem WellIndexed.set {document : Document} (h : document.WellIndexed) (key value : String) :
    (document.set key value).WellIndexed := by
  cases hplace : document.places[key]? with
  | some place =>
    intro other i
    rw [set_of_some value hplace, h other i]
    dsimp only
    rw [Array.getElem?_modify]
    split
    · rw [Option.map_map]
      rfl
    · rfl
  | none =>
    intro other i
    rw [set_of_none value hplace]
    dsimp only
    rw [Std.HashMap.getElem?_insert, Array.getElem?_push]
    simp only [beq_iff_eq]
    by_cases hi : i = document.entries.size
    · subst hi
      have hend : ¬document.places[other]? = some document.entries.size := by
        intro heq
        rw [h, Array.getElem?_eq_none (Nat.le_refl _)] at heq
        cases heq
      rw [if_pos rfl, Option.map_some, Option.some.injEq]
      by_cases hkey : key = other
      · rw [if_pos hkey]
        exact iff_of_true rfl hkey
      · rw [if_neg hkey]
        exact iff_of_false hend hkey
    · rw [if_neg hi, ← h other i]
      by_cases hkey : key = other
      · subst hkey
        rw [if_pos rfl, hplace, Option.some.injEq]
        exact iff_of_false (fun heq => hi heq.symm) (fun hnone => by cases hnone)
      · rw [if_neg hkey]

theorem Lawful.set {document : Document} (h : document.Lawful) (key value : String) :
    (document.set key value).Lawful where
  indexed := h.indexed.set key value
  flat := by
    cases hplace : document.places[key]? with
    | some place =>
      intro entry hentry
      rw [set_of_some value hplace] at hentry
      obtain ⟨i, hi⟩ := mem_toList_iff.1 hentry
      dsimp only at hi
      rw [Array.getElem?_modify] at hi
      split at hi
      · obtain ⟨_, _, rfl⟩ := Option.map_eq_some_iff.1 hi
        exact flatten_flatten value
      · exact h.flat entry (mem_toList_iff.2 ⟨i, hi⟩)
    | none =>
      intro entry hentry
      rw [set_of_none value hplace, toList, Array.toList_push, List.mem_append,
        List.mem_singleton] at hentry
      obtain hold | rfl := hentry
      · exact h.flat entry hold
      · exact flatten_flatten value

theorem Lawful.get?_set_self {document : Document} (h : document.Lawful) (key value : String) :
    (document.set key value).get? key = some (flatten value) := by
  cases hplace : document.places[key]? with
  | some place =>
    have hentry := (h.indexed key place).1 hplace
    obtain ⟨entry, hfound, _⟩ := Option.map_eq_some_iff.1 hentry
    rw [set_of_some value hplace, get?]
    dsimp only
    rw [hplace, Option.bind_some, Array.getElem?_modify, if_pos rfl, hfound]
    rfl
  | none =>
    rw [set_of_none value hplace, get?]
    dsimp only
    rw [Std.HashMap.getElem?_insert_self, Option.bind_some, Array.getElem?_push_size]
    rfl

theorem Lawful.get?_set_of_ne {document : Document} (h : document.Lawful) {key other : String}
    (value : String) (hne : key ≠ other) :
    (document.set key value).get? other = document.get? other := by
  cases hplace : document.places[key]? with
  | some place =>
    rw [set_of_some value hplace, get?, get?]
    dsimp only
    cases hother : document.places[other]? with
    | none => rfl
    | some i =>
      have hi : place ≠ i := by
        intro heq
        subst heq
        have hfirst := (h.indexed key place).1 hplace
        have hsecond := (h.indexed other place).1 hother
        rw [hfirst, Option.some.injEq] at hsecond
        exact hne hsecond
      rw [Option.bind_some, Option.bind_some, Array.getElem?_modify, if_neg hi]
  | none =>
    rw [set_of_none value hplace, get?, get?]
    dsimp only
    rw [Std.HashMap.getElem?_insert, if_neg fun hbeq => hne (beq_iff_eq.1 hbeq)]
    cases hother : document.places[other]? with
    | none => rfl
    | some i =>
      have hentry := (h.indexed other i).1 hother
      have hi : i ≠ document.entries.size := by
        intro heq
        rw [heq, Array.getElem?_eq_none (Nat.le_refl _)] at hentry
        cases hentry
      rw [Option.bind_some, Option.bind_some, Array.getElem?_push, if_neg hi]

/-- A key that is there keeps its place, and only its value changes. -/
theorem Lawful.toList_set_of_mem {document : Document} (h : document.Lawful) {key : String}
    (value : String) (hkey : key ∈ document.keys) :
    (document.set key value).toList =
      document.toList.map fun entry => if entry.1 = key then (key, flatten value) else entry := by
  cases hplace : document.places[key]? with
  | none => exact absurd hkey (h.indexed.places_eq_none_iff.1 hplace)
  | some place =>
    rw [set_of_some value hplace]
    apply List.ext_getElem?
    intro i
    rw [toList, toList, List.getElem?_map, Array.getElem?_toList, Array.getElem?_toList,
      Array.getElem?_modify]
    have hfind := h.indexed key i
    rw [hplace, Option.some.injEq] at hfind
    cases hentry : document.entries[i]? with
    | none => split <;> rfl
    | some entry =>
      rw [hentry, Option.map_some, Option.some.injEq] at hfind
      split
      · rename_i heq
        have hsame := hfind.1 heq
        rw [Option.map_some, Option.map_some, if_pos hsame, hsame]
      · rename_i hne
        rw [Option.map_some, if_neg fun hsame => hne (hfind.2 hsame)]

/-- A key that is not there comes behind all others. -/
theorem Lawful.toList_set_of_not_mem {document : Document} (h : document.Lawful) {key : String}
    (value : String) (hkey : key ∉ document.keys) :
    (document.set key value).toList = document.toList ++ [(key, flatten value)] := by
  rw [set_of_none value (h.indexed.places_eq_none_iff.2 hkey), toList, Array.toList_push]
  rfl

/-- A key that is set keeps its place, or comes behind all others when it is new. -/
theorem Lawful.keys_set {document : Document} (h : document.Lawful) (key value : String) :
    (document.set key value).keys =
      if key ∈ document.keys then document.keys else document.keys ++ [key] := by
  split
  · rename_i hkey
    rw [keys, h.toList_set_of_mem value hkey, List.map_map, keys]
    apply List.map_congr_left
    intro entry _
    rw [Function.comp_apply]
    split
    · rename_i hsame
      exact hsame.symm
    · rfl
  · rename_i hkey
    rw [keys, h.toList_set_of_not_mem value hkey, List.map_append]
    rfl

/-! ## Removing a key -/

/-- The value that a removed key gives is the one that it had. -/
theorem fst_pop (document : Document) (key : String) :
    (document.pop key).1 = document.get? key := by
  rw [pop, get?]
  cases document.places[key]? <;> rfl

/-- The places behind a removed one move up. -/
theorem remove_of_some {document : Document} {key : String} {place : Nat}
    (h : document.places[key]? = some place) :
    document.remove key =
      { entries := document.entries.eraseIdxIfInBounds place,
        places := (document.places.erase key).map fun _ other =>
          if place < other then other - 1 else other } := by
  rw [remove, pop, h]

/-- Removing a key that is not there does nothing. -/
theorem remove_of_none {document : Document} {key : String}
    (h : document.places[key]? = none) : document.remove key = document := by
  rw [remove, pop, h]

/-- After a place is erased, each entry in front of it stays and each behind it moves up. -/
theorem getElem?_erased {document : Document} {place : Nat} (h : place < document.entries.size)
    (i : Nat) :
    (document.entries.eraseIdxIfInBounds place)[i]? =
      if i < place then document.entries[i]? else document.entries[i + 1]? := by
  rw [← Array.eraseIdx_eq_eraseIdxIfInBounds h, Array.getElem?_eraseIdx]

theorem WellIndexed.lt_size {document : Document} (h : document.WellIndexed) {key : String}
    {place : Nat} (hplace : document.places[key]? = some place) :
    place < document.entries.size := by
  obtain ⟨entry, hentry, _⟩ := Option.map_eq_some_iff.1 ((h key place).1 hplace)
  exact (Array.getElem?_eq_some_iff.1 hentry).1

theorem WellIndexed.remove {document : Document} (h : document.WellIndexed) (key : String) :
    (document.remove key).WellIndexed := by
  cases hplace : document.places[key]? with
  | none =>
    rw [remove_of_none hplace]
    exact h
  | some place =>
    have hlt := h.lt_size hplace
    intro other i
    rw [remove_of_some hplace]
    dsimp only
    rw [Std.HashMap.getElem?_map, Std.HashMap.getElem?_erase, getElem?_erased hlt]
    simp only [beq_iff_eq]
    by_cases hkey : key = other
    · subst hkey
      have honly : ∀ j, document.entries[j]?.map Prod.fst = some key → j = place := by
        intro j hj
        rw [← h, hplace, Option.some.injEq] at hj
        exact hj.symm
      rw [if_pos rfl, Option.map_none]
      refine iff_of_false (fun hnone => by cases hnone) ?_
      split
      · intro heq
        have hj := honly _ heq
        omega
      · intro heq
        have hj := honly _ heq
        omega
    · have hfind : ∀ j, document.places[other]? = some j → j ≠ place := by
        intro j hj heq
        subst heq
        rw [h] at hj hplace
        rw [hj, Option.some.injEq] at hplace
        exact hkey hplace.symm
      rw [if_neg hkey, Option.map_eq_some_iff]
      constructor
      · rintro ⟨j, hj, rfl⟩
        have hne := hfind j hj
        have hentry := (h other j).1 hj
        split
        · rename_i hlt
          rw [if_neg (by omega), Nat.sub_add_cancel (by omega)]
          exact hentry
        · rw [if_pos (by omega)]
          exact hentry
      · intro hentry
        split at hentry
        · rename_i hi
          exact ⟨i, (h other i).2 hentry, if_neg (by omega)⟩
        · rename_i hi
          exact ⟨i + 1, (h other (i + 1)).2 hentry, if_pos (by omega)⟩

/-- Where no key stands twice, erasing the entry of a key leaves those of the others. -/
theorem eraseIdx_eq_filter {entries : List (String × String)} {key : String} {place : Nat}
    (hn : (entries.map Prod.fst).Nodup) (h : entries[place]?.map Prod.fst = some key) :
    entries.eraseIdx place = entries.filter fun entry => entry.1 ≠ key := by
  induction entries generalizing place with
  | nil => rfl
  | cons entry rest ih =>
    rw [List.map_cons, List.nodup_cons] at hn
    cases place with
    | zero =>
      rw [List.getElem?_cons_zero, Option.map_some, Option.some.injEq] at h
      have hrest : rest.filter (fun other => decide (other.1 ≠ key)) = rest := by
        rw [List.filter_eq_self]
        intro other ho
        apply decide_eq_true
        intro heq
        exact hn.1 (List.mem_map.2 ⟨other, ho, heq.trans h.symm⟩)
      rw [List.eraseIdx_cons_zero, List.filter_cons, if_neg (by simp [h]), hrest]
    | succ place =>
      rw [List.getElem?_cons_succ] at h
      obtain ⟨found, hfound, hkey⟩ := Option.map_eq_some_iff.1 h
      have hne : entry.1 ≠ key := by
        intro heq
        rw [heq, ← hkey] at hn
        exact hn.1 (List.mem_map.2 ⟨found, List.mem_of_getElem? hfound, rfl⟩)
      rw [List.eraseIdx_cons_succ, ih hn.2 h, List.filter_cons, if_pos (decide_eq_true hne)]

/-- Removing a key leaves the entries of the others, in their order. -/
theorem Lawful.toList_remove {document : Document} (h : document.Lawful) (key : String) :
    (document.remove key).toList = document.toList.filter fun entry => entry.1 ≠ key := by
  cases hplace : document.places[key]? with
  | none =>
    have hkey := h.indexed.places_eq_none_iff.1 hplace
    rw [remove_of_none hplace, eq_comm, List.filter_eq_self]
    intro entry hentry
    apply decide_eq_true
    intro heq
    exact hkey (List.mem_map.2 ⟨entry, hentry, heq⟩)
  | some place =>
    have hentry := (h.indexed key place).1 hplace
    rw [remove_of_some hplace, toList, Array.toList_eraseIdxIfInBounds]
    apply eraseIdx_eq_filter h.nodup_keys
    rw [Array.getElem?_toList]
    exact hentry

/-- A key that is removed leaves the others in their order. -/
theorem Lawful.keys_remove {document : Document} (h : document.Lawful) (key : String) :
    (document.remove key).keys = document.keys.filter fun found => found ≠ key := by
  rw [keys, h.toList_remove, keys, List.filter_map]
  rfl

theorem Lawful.remove {document : Document} (h : document.Lawful) (key : String) :
    (document.remove key).Lawful where
  indexed := h.indexed.remove key
  flat := by
    intro entry hentry
    rw [h.toList_remove, List.mem_filter] at hentry
    exact h.flat entry hentry.1

theorem Lawful.get?_remove_self {document : Document} (h : document.Lawful) (key : String) :
    (document.remove key).get? key = none := by
  rw [Option.eq_none_iff_forall_ne_some]
  intro value hvalue
  rw [(h.remove key).get?_eq_some_iff, h.toList_remove, List.mem_filter] at hvalue
  exact of_decide_eq_true hvalue.2 rfl

theorem Lawful.get?_remove_of_ne {document : Document} (h : document.Lawful)
    {key other : String} (hne : key ≠ other) :
    (document.remove key).get? other = document.get? other := by
  apply Option.ext
  intro value
  rw [(h.remove key).get?_eq_some_iff, h.get?_eq_some_iff, h.toList_remove, List.mem_filter]
  exact and_iff_left (decide_eq_true hne.symm)

/-! ## Several changes -/

/-- Set a key to a value, or remove it. -/
def change (document : Document) : String × Option String → Document
  | (key, some value) => document.set key value
  | (key, none) => document.remove key

/-- Carry out changes, one after the other. -/
def changeAll (document : Document) (changes : List (String × Option String)) : Document :=
  changes.foldl change document

theorem Lawful.change {document : Document} (h : document.Lawful)
    (item : String × Option String) : (document.change item).Lawful := by
  obtain ⟨key, _ | value⟩ := item
  · exact h.remove key
  · exact h.set key value

theorem Lawful.changeAll {document : Document} (h : document.Lawful)
    (changes : List (String × Option String)) : (document.changeAll changes).Lawful := by
  induction changes generalizing document with
  | nil => exact h
  | cons item rest ih => exact ih (h.change item)

/-- Setting keys one after the other is a row of changes. -/
theorem setAll_eq_changeAll (document : Document) (pairs : List (String × String)) :
    document.setAll pairs = document.changeAll (pairs.map fun pair => (pair.1, some pair.2)) := by
  rw [setAll, changeAll, List.foldl_map]
  rfl

/-- Whatever text is read, the document is lawful. -/
theorem lawful_parse (text : String) : (parse text).Lawful := by
  rw [parse, setAll_eq_changeAll]
  exact lawful_empty.changeAll _

/-- A change gives its key the value, on one line, or none. -/
theorem Lawful.get?_change_self {document : Document} (h : document.Lawful) (key : String)
    (value : Option String) : (document.change (key, value)).get? key = value.map flatten := by
  cases value with
  | none => exact h.get?_remove_self key
  | some value => exact h.get?_set_self key value

/-- A change leaves the values of all other keys. -/
theorem Lawful.get?_change_of_ne {document : Document} (h : document.Lawful)
    {item : String × Option String} {other : String} (hne : item.1 ≠ other) :
    (document.change item).get? other = document.get? other := by
  obtain ⟨key, _ | value⟩ := item
  · exact h.get?_remove_of_ne hne
  · exact h.get?_set_of_ne value hne

/-- Changes leave the values of keys that they do not name. -/
theorem Lawful.get?_changeAll_of_not_mem {document : Document} (h : document.Lawful)
    {changes : List (String × Option String)} {key : String} (hk : key ∉ changes.map Prod.fst) :
    (document.changeAll changes).get? key = document.get? key := by
  induction changes generalizing document with
  | nil => rfl
  | cons item rest ih =>
    rw [List.map_cons, List.mem_cons, not_or] at hk
    have hrest := ih (h.change item) hk.2
    rw [h.get?_change_of_ne fun heq => hk.1 heq.symm] at hrest
    exact hrest

/-- Where no change comes after another to its key, each gives its key its value. -/
theorem Lawful.get?_changeAll_of_mem {document : Document} (h : document.Lawful)
    {changes : List (String × Option String)} {key : String} {value : Option String}
    (hn : (changes.map Prod.fst).Nodup) (hm : (key, value) ∈ changes) :
    (document.changeAll changes).get? key = value.map flatten := by
  induction changes generalizing document with
  | nil => cases hm
  | cons item rest ih =>
    rw [List.map_cons, List.nodup_cons] at hn
    obtain rfl | hm := List.mem_cons.1 hm
    · have hrest := (h.change (key, value)).get?_changeAll_of_not_mem hn.1
      rw [h.get?_change_self] at hrest
      exact hrest
    · exact ih (h.change item) hn.2 hm

end GameTrainer.Document
