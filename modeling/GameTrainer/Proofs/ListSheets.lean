import Mathlib.Data.List.InsertIdx
import Mathlib.Logic.Equiv.Basic
import GameTrainer.Proofs.SilentPass

/-!
# Lists as sheets

What a user sees of a cheat list is a sheet: what its entries and its draft are, without
their places and without what their rumble remembers. On a sheet each operation is one
operation on a plain list: an element is inserted or taken out at one place, two neighbours
are exchanged, a beginning is kept or blanks are added, one element is set, or some come
behind. Main statement: whatever is done to a list, its sheet changes just as that operation
changes a sheet, and it fails where it fails on the sheet.
-/

namespace GameTrainer

namespace Cheat

/-- What an entry is, without its place and without what its rumble remembers. -/
def content (cheat : Cheat) : Cheat where
  description := cheat.description
  enabled := cheat.enabled
  effect :=
    match cheat.effect with
    | .code text => .code text
    | .patch patch => .patch { patch with rumbleState := {} }

@[simp] theorem content_restartRumble (cheat : Cheat) :
    cheat.restartRumble.content = cheat.content := by
  obtain ⟨index, description, enabled, effect⟩ := cheat
  cases effect <;> rfl

@[simp] theorem content_blank (index : UInt32) (handler : Handler) :
    (blank index handler).content = blank 0 handler := by
  cases handler <;> rfl

/-- Switching an entry flips its state and changes nothing else of what it is. -/
theorem content_switched (cheat : Cheat) :
    cheat.switched.content = { cheat.content with enabled := !cheat.content.enabled } := by
  rw [switched]
  dsimp only
  split
  · rw [content_restartRumble]
    rfl
  · rfl

end Cheat

/-! ## Operations on plain lists -/

/-- The list with the elements at two places exchanged. -/
def exchanged {α : Type} (first second : Nat) (elements : List α) : List α :=
  elements.mapIdx fun place element => elements[Equiv.swap first second place]?.getD element

/-- A place exchanged with itself changes nothing. -/
theorem exchanged_self {α : Type} (place : Nat) (elements : List α) :
    exchanged place place elements = elements := by
  rw [exchanged, List.mapIdx_eq_iff]
  intro i
  rw [Equiv.swap_self, Equiv.refl_apply]
  cases elements[i]? <;> rfl

/-- Each element comes from the place that its own is exchanged with. -/
theorem getElem?_swapNext {α : Type} {index : Nat} {elements : List α}
    (h : index + 1 < elements.length) (place : Nat) :
    (CheatList.swapNext index elements)[place]? =
      elements[Equiv.swap index (index + 1) place]? := by
  -- Along the list, with the index going down: the exchange happens at its head.
  induction elements generalizing index place with
  | nil => cases h
  | cons first rest ih =>
    rw [Equiv.swap_apply_def]
    cases index with
    | zero =>
      cases rest with
      | nil => exact absurd h (by simp)
      | cons second later =>
        rw [CheatList.swapNext]
        rcases place with _ | _ | place <;> rfl
    | succ index =>
      rw [CheatList.swapNext]
      cases place with
      | zero => rfl
      | succ place =>
        rw [List.getElem?_cons_succ, ih (Nat.lt_of_succ_lt_succ h), Equiv.swap_apply_def]
        simp only [Nat.add_right_cancel_iff]
        split
        · rfl
        · split <;> rfl

/-- Exchanging a place with the next one is exchanging two places. -/
theorem swapNext_eq_exchanged {α : Type} {index : Nat} {elements : List α}
    (h : index + 1 < elements.length) :
    CheatList.swapNext index elements = exchanged index (index + 1) elements := by
  apply List.ext_getElem?
  intro place
  rw [getElem?_swapNext h, exchanged, List.getElem?_mapIdx]
  by_cases hplace : place < elements.length
  · have hfrom : Equiv.swap index (index + 1) place < elements.length := by
      rw [Equiv.swap_apply_def]
      split
      · exact h
      · split <;> omega
    rw [List.getElem?_eq_getElem hplace, List.getElem?_eq_getElem hfrom]
    rfl
  · -- Behind the end neither of the two places can stand.
    have hfrom : Equiv.swap index (index + 1) place = place := by
      apply Equiv.swap_apply_of_ne_of_ne <;> omega
    rw [hfrom, List.getElem?_eq_none (by omega)]
    rfl

/-- Exchanging neighbours is exchanging what they are. -/
theorem map_swapNext {α β : Type} {view : α → β} {index : Nat} {elements : List α}
    (h : index + 1 < elements.length) :
    (CheatList.swapNext index elements).map view =
      exchanged index (index + 1) (elements.map view) := by
  have hmap : index + 1 < (elements.map view).length := by
    rw [List.length_map]
    exact h
  rw [← swapNext_eq_exchanged hmap]
  apply List.ext_getElem?
  intro place
  rw [List.getElem?_map, getElem?_swapNext h, getElem?_swapNext hmap, List.getElem?_map]

/-- An element between a beginning and the rest is inserted there. -/
theorem take_append_cons_drop {α : Type} {index : Nat} {elements : List α} (element : α)
    (h : index ≤ elements.length) :
    elements.take index ++ element :: elements.drop index = elements.insertIdx index element := by
  induction elements generalizing index with
  | nil =>
    cases h
    rfl
  | cons first rest ih =>
    cases index with
    | zero => rfl
    | succ index =>
      rw [List.take_succ_cons, List.drop_succ_cons, List.cons_append,
        ih (Nat.le_of_succ_le_succ h), List.insertIdx_succ_cons]

/-! ## Sheets -/

/-- What a user sees of a cheat list. -/
structure Sheet where
  /-- What the entries are, in order. -/
  entries : List Cheat := []
  /-- What the draft is. -/
  draft : Cheat := Cheat.blank 0 .trainer
  deriving DecidableEq, Repr

namespace Sheet

/-- What is done with the entry at a place, or the failure that names the place. -/
def pick (sheet : Sheet) (index : Nat) (change : Cheat → Sheet) : Except Failure Sheet :=
  match sheet.entries[index]? with
  | some cheat => .ok (change cheat)
  | none => .error (.cheatIndexOutOfRange index sheet.entries.length)

/-- The sheet that an action on a list leads to, or why the action fails. -/
def attempt (sheet : Sheet) : ListAction → Except Failure Sheet
  | .push cheat => .ok { sheet with entries := sheet.entries ++ [cheat.content] }
  | .insert index cheat =>
    if index ≤ sheet.entries.length then
      .ok { sheet with entries := sheet.entries.insertIdx index cheat.content }
    else .error (.cheatIndexOutOfRange index sheet.entries.length)
  | .remove index =>
    sheet.pick index fun _ => { sheet with entries := sheet.entries.eraseIdx index }
  | .moveUp index =>
    sheet.pick index fun _ => { sheet with entries := exchanged (index - 1) index sheet.entries }
  | .moveDown index =>
    sheet.pick index fun _ =>
      if index + 1 = sheet.entries.length then sheet
      else { sheet with entries := exchanged index (index + 1) sheet.entries }
  | .clear => .ok { sheet with entries := [] }
  | .resize size handler =>
    .ok { sheet with
      entries := sheet.entries.take size ++
        List.replicate (size - sheet.entries.length) (Cheat.blank 0 handler) }
  | .toggle index =>
    sheet.pick index fun cheat =>
      { sheet with entries := sheet.entries.set index { cheat with enabled := !cheat.enabled } }
  | .stage index => sheet.pick index fun cheat => { sheet with draft := cheat }
  | .edit draft => .ok { sheet with draft := draft.content }
  | .commit index =>
    sheet.pick index fun _ => { sheet with entries := sheet.entries.set index sheet.draft }
  | .addMatches search current =>
    if search.count + sheet.entries.length > CheatList.promotionLimit then
      .error (.tooManyMatches search.count sheet.entries.length CheatList.promotionLimit)
    else
      .ok { sheet with
        entries := sheet.entries ++ (search.views current).map (CheatList.matchCheat search) }
  | .act search current action index =>
    (search.view current index).map fun view =>
      match action with
      | .copy => { sheet with entries := sheet.entries ++ [CheatList.matchCheat search view] }
      | .view | .delete => sheet
  | .load document append =>
    (CheatRecord.readAll document).map fun cheats =>
      let loaded := cheats.map Cheat.content
      { sheet with entries := if append then sheet.entries ++ loaded else loaded }
  | .frame _ _ => .ok sheet

end Sheet

namespace CheatList

/-- What a user sees of the list. -/
def sheet (list : CheatList) : Sheet :=
  ⟨list.entries.map Cheat.content, list.draft.content⟩

theorem length_sheet (list : CheatList) : list.sheet.entries.length = list.size :=
  List.length_map _

/-- What does not depend on places is kept by renumbering. -/
theorem map_renumber {α : Type} {view : Cheat → α} (entries : List Cheat)
    (h : ∀ cheat index, view { cheat with index := index } = view cheat) :
    (renumber entries).map view = entries.map view := by
  apply List.ext_getElem?
  intro i
  rw [renumber, List.getElem?_map, List.getElem?_mapIdx, List.getElem?_map, Option.map_map]
  congr 1
  funext cheat
  exact h cheat _

theorem sheet_withEntries (list : CheatList) (entries : List Cheat) :
    (list.withEntries entries).sheet =
      { list.sheet with entries := entries.map Cheat.content } := by
  rw [sheet, withEntries]
  dsimp only
  rw [map_renumber entries fun _ _ => rfl]
  rfl

end CheatList

namespace FramePass

/-- A pass leaves what an entry is. -/
theorem content_applyCheat (pass : FramePass) (cheat : Cheat) (now : Nat) :
    (pass.applyCheat cheat now).1.content = cheat.content := by
  obtain ⟨index, description, enabled, effect⟩ := cheat
  cases effect with
  | code text => rfl
  | patch patch =>
    rw [applyCheat]
    dsimp only
    split
    · rw [(pass.applyPatch_rumbled patch now).1]
      cases pass.shown? patch <;> rfl
    · rfl

end FramePass

/-! ## Actions on lists and on sheets -/

namespace Outcome

variable {α : Type}

/-- The sheet of the list that an operation leads to, or why it fails. -/
def sheet (outcome : Outcome CheatList α) : Except Failure Sheet :=
  outcome.1.map fun _ => outcome.2.sheet

@[simp] theorem sheet_forget (outcome : Outcome CheatList α) :
    outcome.forget.sheet = outcome.sheet := by
  obtain ⟨failure | value, left⟩ := outcome <;> rfl

end Outcome

open Outcome

namespace CheatList

theorem sheet_push (list : CheatList) (cheat : Cheat) :
    (list.push cheat).sheet =
      { list.sheet with entries := list.sheet.entries ++ [cheat.content] } := by
  rw [push, sheet]
  dsimp only
  rw [List.map_append]
  rfl

theorem sheet_foldl_push (list : CheatList) (cheats : List Cheat) :
    (cheats.foldl push list).sheet =
      { list.sheet with entries := list.sheet.entries ++ cheats.map Cheat.content } := by
  induction cheats generalizing list with
  | nil =>
    rw [List.map_nil, List.append_nil]
    rfl
  | cons cheat rest ih =>
    rw [List.foldl_cons, ih, sheet_push, List.map_cons]
    dsimp only
    rw [List.append_assoc, List.singleton_append]

/-- What is done with the entry at a place of the list is done with it on the sheet. -/
theorem sheet_withEntry {α : Type} (list : CheatList) (index : Nat)
    {make : Cheat → α × CheatList} {change : Cheat → Sheet}
    (h : ∀ cheat, list.entries[index]? = some cheat →
      (make cheat).2.sheet = change cheat.content) :
    (list.withEntry index make).sheet = list.sheet.pick index change := by
  rw [withEntry, get?, Sheet.pick, length_sheet, sheet, List.getElem?_map]
  cases hcheat : list.entries[index]? with
  | some cheat => exact congrArg Except.ok (h cheat hcheat)
  | none => rfl

theorem sheet_insert (list : CheatList) (index : Nat) (cheat : Cheat) :
    (list.insert index cheat).sheet = list.sheet.attempt (.insert index cheat) := by
  rw [insert, Sheet.attempt, length_sheet]
  by_cases hle : index ≤ list.size
  · rw [if_neg (Nat.not_lt.2 hle), if_pos hle, Outcome.sheet, Except.map, sheet_withEntries,
      take_append_cons_drop cheat hle, List.map_insertIdx]
    rfl
  · rw [if_pos (Nat.lt_of_not_le hle), if_neg hle]
    rfl

theorem sheet_remove (list : CheatList) (index : Nat) :
    (list.remove index).sheet = list.sheet.attempt (.remove index) := by
  apply sheet_withEntry
  intro cheat _
  rw [sheet_withEntries, ← List.eraseIdx_map]
  rfl

/-- Exchanging an entry with the one before it exchanges what they are. At the first place it is
exchanged with itself. -/
theorem sheet_moveUp (list : CheatList) (index : Nat) :
    (list.moveUp index).sheet = list.sheet.attempt (.moveUp index) := by
  apply sheet_withEntry
  intro cheat hcheat
  have hlt := (List.getElem?_eq_some_iff.1 hcheat).1
  split
  · rename_i hzero
    rw [hzero, exchanged_self]
  · rename_i hne
    have hback : index - 1 + 1 = index := by omega
    rw [sheet_withEntries, map_swapNext (by omega), hback]
    rfl

theorem sheet_moveDown (list : CheatList) (index : Nat) :
    (list.moveDown index).sheet = list.sheet.attempt (.moveDown index) := by
  apply sheet_withEntry
  intro cheat hcheat
  have hlt : index < list.size := (List.getElem?_eq_some_iff.1 hcheat).1
  rw [length_sheet]
  split
  · rfl
  · rename_i hne
    have hnext : index + 1 < list.entries.length := Nat.lt_of_le_of_ne hlt hne
    rw [sheet_withEntries, map_swapNext hnext]
    rfl

/-- Each blank that fills a list up is the same but for its place. -/
theorem sheet_resize (list : CheatList) (size : Nat) (handler : Handler) :
    .ok (list.resize size handler).sheet = list.sheet.attempt (.resize size handler) := by
  have hblank : ∀ places : List Nat,
      (places.map fun i => Cheat.blank (UInt32.ofNat i) handler).map Cheat.content =
        List.replicate places.length (Cheat.blank 0 handler) := by
    intro places
    rw [List.map_map, ← List.map_const]
    exact List.map_congr_left fun i _ => Cheat.content_blank _ handler
  rw [Sheet.attempt, length_sheet, resize, sheet]
  dsimp only
  rw [List.map_append, List.map_take, hblank, List.length_range']
  rfl

theorem sheet_toggle (list : CheatList) (index : Nat) :
    (list.toggle index).sheet = list.sheet.attempt (.toggle index) := by
  apply sheet_withEntry
  intro cheat _
  rw [← cheat.content_switched]
  exact congrArg (Sheet.mk · list.draft.content) List.map_set

theorem sheet_stage (list : CheatList) (index : Nat) :
    (list.stage index).sheet = list.sheet.attempt (.stage index) := by
  apply sheet_withEntry
  intro cheat _
  rfl

theorem sheet_commit (list : CheatList) (index : Nat) :
    (list.commit index).sheet = list.sheet.attempt (.commit index) := by
  apply sheet_withEntry
  intro cheat _
  rw [sheet]
  dsimp only
  rw [List.map_set, Cheat.content_restartRumble]
  rfl

theorem sheet_addMatches (list : CheatList) (search : Search) (current : Bytes) :
    (list.addMatches search current).sheet =
      list.sheet.attempt (.addMatches search current) := by
  rw [addMatches, Sheet.attempt, length_sheet]
  split
  · rfl
  · rw [Outcome.sheet, Except.map, sheet_foldl_push, List.map_map]
    rfl

/-- Only whether the match is there decides whether it can be ruled out. -/
theorem map_discard {α : Type} (search : Search) (current : Bytes) (index : Nat) (made : α) :
    (search.discard current index).1.map (fun _ => made) =
      (search.view current index).map fun _ => made := by
  rw [Search.discard, Search.view]
  cases search.locate index <;> rfl

/-- Of what a user does with a match only copying it reaches the list. -/
theorem sheet_act (list : CheatList) (search : Search) (current : Bytes) (action : MatchAction)
    (index : Nat) :
    (list.attempt (.act search current action index)).sheet =
      list.sheet.attempt (.act search current action index) := by
  cases action with
  | view =>
    rw [attempt, act, Sheet.attempt]
    cases search.view current index <;> rfl
  | copy =>
    rw [attempt, act, Sheet.attempt]
    cases search.view current index with
    | error failure => rfl
    | ok view => exact congrArg Except.ok (list.sheet_push _)
  | delete =>
    rw [Sheet.attempt, ← map_discard search, attempt, act]
    dsimp only
    cases (search.discard current index).1 <;> rfl

/-- Loading brings in what the cheats of the document are. -/
theorem sheet_loaded (list : CheatList) (cheats : List Cheat) (append : Bool) :
    (if append then list.append cheats else list.replace cheats).sheet =
      { list.sheet with
        entries := if append then list.sheet.entries ++ cheats.map Cheat.content
          else cheats.map Cheat.content } := by
  have hcontent : (cheats.map Cheat.restartRumble).map Cheat.content =
      cheats.map Cheat.content := by
    rw [List.map_map]
    exact List.map_congr_left fun cheat _ => cheat.content_restartRumble
  cases append with
  | true =>
    rw [if_pos rfl, if_pos rfl, CheatList.append, sheet_withEntries, List.map_append, hcontent]
    rfl
  | false =>
    rw [if_neg Bool.false_ne_true, if_neg Bool.false_ne_true, replace, sheet_withEntries,
      hcontent]

theorem sheet_loadDocument (list : CheatList) (document : Document) (append : Bool) :
    (list.loadDocument document append).sheet =
      list.sheet.attempt (.load document append) := by
  rw [loadDocument, Sheet.attempt]
  cases CheatRecord.readAll document with
  | error failure => rfl
  | ok cheats => exact congrArg Except.ok (list.sheet_loaded cheats append)

theorem sheet_frame (list : CheatList) (memory : Bytes) (now : Nat) :
    CheatList.sheet { list with entries := (applyFrame list.entries memory now).1 } =
      list.sheet := by
  rw [sheet, applyFrame]
  dsimp only
  rw [FramePass.map_applyAll now fun pass cheat => pass.content_applyCheat cheat now]
  rfl

/-- An action on a list changes its sheet just as it changes a sheet, and fails where it
fails there. -/
theorem sheet_attempt (list : CheatList) (action : ListAction) :
    (list.attempt action).sheet = list.sheet.attempt action := by
  cases action with
  | push cheat => exact congrArg Except.ok (list.sheet_push cheat)
  | insert index cheat => exact list.sheet_insert index cheat
  | remove index => exact (sheet_forget _).trans (list.sheet_remove index)
  | moveUp index => exact (sheet_forget _).trans (list.sheet_moveUp index)
  | moveDown index => exact (sheet_forget _).trans (list.sheet_moveDown index)
  | clear => rfl
  | resize size handler => exact list.sheet_resize size handler
  | toggle index => exact (sheet_forget _).trans (list.sheet_toggle index)
  | stage index => exact (sheet_forget _).trans (list.sheet_stage index)
  | edit draft => rfl
  | commit index => exact list.sheet_commit index
  | addMatches search current => exact (sheet_forget _).trans (list.sheet_addMatches search current)
  | act search current action index => exact list.sheet_act search current action index
  | load document append => exact (sheet_forget _).trans (list.sheet_loadDocument document append)
  | frame memory now => exact congrArg Except.ok (list.sheet_frame memory now)

end CheatList

end GameTrainer
