import GameTrainer.CheatList

/-!
# Switching entries on and off

Switching several entries of a list, one after the other and in any order, is the
same as exchanging each of them for its switched form where it stands. Main
statement: a list of places without repetition that all lie in the list is
switched without failure, and no other entry changes.
-/

namespace GameTrainer

namespace Cheat

/-- The entry in its other state; switching on begins a new rumble warm-up. -/
def switched (cheat : Cheat) : Cheat :=
  let flipped := { cheat with enabled := !cheat.enabled }
  if flipped.enabled then flipped.restartRumble else flipped

end Cheat

namespace CheatList

/-- The entries, each of those at some places in its other state. -/
def switchAt (places : List Nat) (entries : List Cheat) : List Cheat :=
  entries.mapIdx fun i cheat => if i ∈ places then cheat.switched else cheat

/-- Switch the entries at some places, one after the other, up to the first that fails. -/
def toggleAll (list : CheatList) : List Nat → Outcome CheatList Unit
  | [] => (.ok (), list)
  | place :: rest =>
    match list.toggle place with
    | (.ok _, next) => next.toggleAll rest
    | (.error failure, left) => (.error failure, left)

/-- An entry that the list has is exchanged for its switched form. -/
theorem toggle_eq_ok {list : CheatList} {place : Nat} {cheat : Cheat}
    (h : list.entries[place]? = some cheat) :
    list.toggle place =
      (.ok cheat.switched.enabled,
        { list with entries := list.entries.set place cheat.switched }) := by
  rw [toggle, withEntry, get?, h]
  rfl

/-- Without places nothing is switched. -/
theorem switchAt_nil (entries : List Cheat) : switchAt [] entries = entries := by
  apply List.ext_getElem?
  intro i
  rw [switchAt, List.getElem?_mapIdx]
  simp only [List.not_mem_nil, if_false]
  exact Option.map_id_apply

/-- A place that is met once can be switched before the others. -/
theorem switchAt_cons {place : Nat} {places : List Nat} {entries : List Cheat} {cheat : Cheat}
    (hn : place ∉ places) (h : entries[place]? = some cheat) :
    switchAt (place :: places) entries = switchAt places (entries.set place cheat.switched) := by
  have hlt : place < entries.length := (List.getElem?_eq_some_iff.1 h).1
  apply List.ext_getElem?
  intro i
  rw [switchAt, switchAt, List.getElem?_mapIdx, List.getElem?_mapIdx]
  by_cases hi : place = i
  · subst hi
    rw [List.getElem?_set_self hlt, h, Option.map_some, Option.map_some,
      if_pos List.mem_cons_self, if_neg hn]
  · have hmem : i ∈ place :: places ↔ i ∈ places := by
      rw [List.mem_cons]
      exact or_iff_right fun heq => hi heq.symm
    rw [List.getElem?_set_ne hi]
    simp only [hmem]

/-- Places that do not repeat and lie in the list are all switched. -/
theorem toggleAll_eq_ok {list : CheatList} {places : List Nat} (hn : places.Nodup)
    (hlt : ∀ place ∈ places, place < list.size) :
    list.toggleAll places =
      (.ok (), { list with entries := switchAt places list.entries }) := by
  induction places generalizing list with
  | nil =>
    rw [toggleAll, switchAt_nil]
  | cons place rest ih =>
    obtain ⟨hfirst, hrest⟩ := List.nodup_cons.1 hn
    have hplace : place < list.entries.length := hlt place List.mem_cons_self
    have hentry := List.getElem?_eq_getElem hplace
    have hothers : ∀ other ∈ rest,
        other < (list.entries.set place list.entries[place].switched).length := by
      intro other ho
      rw [List.length_set]
      exact hlt other (List.mem_cons_of_mem place ho)
    rw [toggleAll, toggle_eq_ok hentry, switchAt_cons hfirst hentry]
    exact ih hrest hothers

/-- Switching the entries of a last part switches each of them, and no other. -/
theorem switchAt_back {places : List Nat} {front back : List Cheat}
    (h : ∀ i, i ∈ places ↔ front.length ≤ i ∧ i < front.length + back.length) :
    switchAt places (front ++ back) = front ++ back.map Cheat.switched := by
  rw [switchAt, List.mapIdx_append]
  congr 1
  · rw [List.mapIdx_eq_iff]
    intro i
    by_cases hi : i < front.length
    · have hmem : i ∉ places := by
        intro hin
        have hle := ((h i).1 hin).1
        omega
      simp only [hmem, if_false]
      exact Option.map_id_apply.symm
    · rw [List.getElem?_eq_none (by omega)]
      rfl
  · rw [List.mapIdx_eq_iff]
    intro i
    rw [List.getElem?_map]
    by_cases hi : i < back.length
    · have hmem : i + front.length ∈ places := by
        rw [h]
        omega
      simp only [hmem, if_true]
    · rw [List.getElem?_eq_none (by omega)]
      rfl

end CheatList

end GameTrainer
