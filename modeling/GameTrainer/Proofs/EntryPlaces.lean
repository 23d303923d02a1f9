import GameTrainer.Proofs.ListRuns

/-!
# The places of entries

Each entry of a cheat list carries its place in the list as its index, so that a user can
name it. Some operations number the entries anew, some give a place to the one entry that
they change, and some leave all places alone. Main statement: every action that goes through
leaves each entry with its own place.
-/

namespace GameTrainer

namespace Cheat

@[simp] theorem index_restartRumble (cheat : Cheat) : cheat.restartRumble.index = cheat.index := by
  obtain ⟨index, description, enabled, effect⟩ := cheat
  cases effect <;> rfl

@[simp] theorem index_blank (index : UInt32) (handler : Handler) :
    (blank index handler).index = index := by
  cases handler <;> rfl

@[simp] theorem index_switched (cheat : Cheat) : cheat.switched.index = cheat.index := by
  rw [switched]
  dsimp only
  split
  · rw [index_restartRumble]
  · rfl

end Cheat

namespace FramePass

/-- What passing over one entry keeps is kept by passing over a list. -/
theorem map_applyAll {α : Type} {view : Cheat → α} (now : Nat)
    (h : ∀ (pass : FramePass) cheat, view (pass.applyCheat cheat now).1 = view cheat)
    (pass : FramePass) (cheats : List Cheat) :
    (pass.applyAll now cheats).1.map view = cheats.map view := by
  induction cheats generalizing pass with
  | nil => rfl
  | cons cheat rest ih =>
    rw [applyAll]
    dsimp only
    rw [List.map_cons, ih, h, List.map_cons]

/-- A pass leaves the place of an entry. -/
theorem index_applyCheat (pass : FramePass) (cheat : Cheat) (now : Nat) :
    (pass.applyCheat cheat now).1.index = cheat.index := by
  rw [applyCheat]
  split
  · rfl
  · split <;> rfl

end FramePass

namespace CheatList

/-- An entry that carries a place can be put there. -/
theorem numbered_set {entries : List Cheat} {index : Nat} {cheat : Cheat} (h : Numbered entries)
    (hindex : cheat.index = UInt32.ofNat index) : Numbered (entries.set index cheat) := by
  intro i placed hplaced
  rw [List.getElem?_set] at hplaced
  split at hplaced
  · rename_i heq
    split at hplaced
    · cases hplaced
      rw [hindex, heq]
    · cases hplaced
  · exact h i placed hplaced

/-- Entries that carry the places behind others can come behind them. -/
theorem numbered_append {front back : List Cheat} (h : Numbered front)
    (hback : ∀ i cheat, back[i]? = some cheat → cheat.index = UInt32.ofNat (front.length + i)) :
    Numbered (front ++ back) := by
  intro i placed hplaced
  rw [List.getElem?_append] at hplaced
  split at hplaced
  · exact h i placed hplaced
  · rename_i hle
    have hplace : front.length + (i - front.length) = i := by omega
    rw [hback _ placed hplaced, hplace]

/-- Entries with the indices of numbered ones are numbered. -/
theorem numbered_of_map_index {entries next : List Cheat} (h : Numbered entries)
    (hindex : next.map Cheat.index = entries.map Cheat.index) : Numbered next := by
  intro i cheat hcheat
  have hsame := congrArg (·[i]?) hindex
  rw [List.getElem?_map, hcheat, List.getElem?_map] at hsame
  obtain ⟨old, hold, heq⟩ := Option.map_eq_some_iff.1 hsame.symm
  rw [← heq]
  exact h i old hold

/-- Cutting a list and filling it up with empty entries keeps the places. -/
theorem numbered_resize {list : CheatList} (size : Nat) (handler : Handler)
    (h : Numbered list.entries) : Numbered (list.resize size handler).entries := by
  apply numbered_append
  · intro i placed hplaced
    rw [List.getElem?_take] at hplaced
    split at hplaced
    · exact h i placed hplaced
    · cases hplaced
  · intro i placed hplaced
    obtain ⟨hlt, hblank⟩ := List.getElem?_eq_some_iff.1 hplaced
    rw [List.length_map, List.length_range'] at hlt
    rw [List.getElem_map, List.getElem_range'] at hblank
    have hplace : (list.entries.take size).length + i = list.size + 1 * i := by
      rw [List.length_take]
      simp only [CheatList.size] at hlt ⊢
      omega
    rw [hplace, ← hblank, Cheat.index_blank]

/-- An action keeps the places. -/
theorem numbered_of_leads {list next : CheatList} {action : ListAction}
    (h : Numbered list.entries) (hleads : list.Leads action next) : Numbered next.entries := by
  cases hleads with
  | push cheat => exact numbered_push cheat h
  | copied => exact numbered_push _ h
  -- All entries are numbered anew.
  | insert | remove | moveUp | moveDown | appended | replaced => exact numbered_renumber _
  -- No entry moves.
  | moveUpFirst | moveDownLast | stage | edit | seen => exact h
  | clear =>
    intro i cheat hcheat
    cases hcheat
  | resize size handler => exact numbered_resize size handler h
  | toggle hcheat => exact numbered_set h ((Cheat.index_switched _).trans (h _ _ hcheat))
  | commit => exact numbered_set h (Cheat.index_restartRumble _)
  | addMatches =>
    apply numbered_append h
    intro i cheat hcheat
    rw [List.getElem?_mapIdx] at hcheat
    obtain ⟨address, _, rfl⟩ := Option.map_eq_some_iff.1 hcheat
    rfl
  | frame memory now =>
    exact numbered_of_map_index h
      (FramePass.map_applyAll now (fun pass cheat => pass.index_applyCheat cheat now) _ _)

end CheatList

end GameTrainer
