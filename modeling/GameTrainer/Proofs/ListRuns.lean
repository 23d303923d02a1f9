import GameTrainer.CheatFrame
import GameTrainer.Proofs.MatchPromotion
import GameTrainer.Proofs.RefusedOperations

/-!
# Runs of a cheat list

A cheat list lives between frames: entries are added, moved, edited through the
draft, loaded and taken out, and in each frame the list is passed over and sends
rumble events. An action that fails leaves the list as it was. A run is the list
that actions lead to from the empty one, with all events sent on the way. Main
statement: what each action can lead to, from which every invariant of runs is
read off.
-/

namespace GameTrainer

/-- What can happen to a cheat list. -/
inductive ListAction where
  /-- An entry is added at the end. -/
  | push (cheat : Cheat)
  /-- An entry is put before the one at a place, or at the end. -/
  | insert (index : Nat) (cheat : Cheat)
  /-- The entry at a place is taken out. -/
  | remove (index : Nat)
  /-- An entry is exchanged with the one before it. -/
  | moveUp (index : Nat)
  /-- An entry is exchanged with the one behind it. -/
  | moveDown (index : Nat)
  /-- Every entry is dropped. -/
  | clear
  /-- The list is cut to a size, or filled up with empty entries. -/
  | resize (size : Nat) (handler : Handler)
  /-- An entry is switched on or off. -/
  | toggle (index : Nat)
  /-- An entry is copied into the draft. -/
  | stage (index : Nat)
  /-- The draft is edited, in whatever way. -/
  | edit (draft : Cheat)
  /-- The draft is written over an entry. -/
  | commit (index : Nat)
  /-- Every match of a search is added. -/
  | addMatches (search : Search) (current : Bytes)
  /-- A user looks at, adds or rules out one match. -/
  | act (search : Search) (current : Bytes) (action : MatchAction) (index : Nat)
  /-- The cheats of a document are loaded, in place of the entries or behind them. -/
  | load (document : Document) (append : Bool)
  /-- The list is passed over once, at a time, on what memory is then. -/
  | frame (memory : Bytes) (now : Nat)

open Outcome

namespace CheatList

/-- Exchanging two neighbours only changes the order. -/
theorem perm_swapNext {α : Type} (index : Nat) (elements : List α) :
    (swapNext index elements).Perm elements := by
  induction elements generalizing index with
  | nil => cases index <;> exact .nil
  | cons first rest ih =>
    cases index with
    | zero =>
      cases rest with
      | nil => exact .refl _
      | cons second later => exact .swap first second later
    | succ index => exact (ih index).cons first

/-- What an action on a list leads to. -/
def attempt (list : CheatList) : ListAction → Outcome CheatList Unit
  | .push cheat => (.ok (), list.push cheat)
  | .insert index cheat => list.insert index cheat
  | .remove index => (list.remove index).forget
  | .moveUp index => (list.moveUp index).forget
  | .moveDown index => (list.moveDown index).forget
  | .clear => (.ok (), list.clear)
  | .resize size handler => (.ok (), list.resize size handler)
  | .toggle index => (list.toggle index).forget
  | .stage index => (list.stage index).forget
  | .edit draft => (.ok (), { list with draft := draft })
  | .commit index => list.commit index
  | .addMatches search current => (list.addMatches search current).forget
  | .act search current action index =>
    let (result, next, _) := list.act search current action index
    (result.map fun _ => (), next)
  | .load document append => (list.loadDocument document append).forget
  | .frame memory now => (.ok (), { list with entries := (applyFrame list.entries memory now).1 })

/-- What an action that goes through makes of a list. -/
inductive Leads (list : CheatList) : ListAction → CheatList → Prop where
  /-- An entry is added at the end. -/
  | push (cheat : Cheat) : Leads list (.push cheat) (list.push cheat)
  /-- An entry is put at a place, in front of those from there on. -/
  | insert {index : Nat} (cheat : Cheat) (h : index ≤ list.size) :
      Leads list (.insert index cheat)
        (list.withEntries (list.entries.take index ++ cheat :: list.entries.drop index))
  /-- An entry is taken out. -/
  | remove {index : Nat} {cheat : Cheat} (h : list.entries[index]? = some cheat) :
      Leads list (.remove index) (list.withEntries (list.entries.eraseIdx index))
  /-- The first entry stays in front. -/
  | moveUpFirst {cheat : Cheat} (h : list.entries[0]? = some cheat) :
      Leads list (.moveUp 0) list
  /-- An entry is exchanged with the one before it. -/
  | moveUp {index : Nat} (h : index + 1 < list.size) :
      Leads list (.moveUp (index + 1)) (list.withEntries (swapNext index list.entries))
  /-- The last entry stays at the end. -/
  | moveDownLast {index : Nat} (h : index + 1 = list.size) : Leads list (.moveDown index) list
  /-- An entry is exchanged with the one behind it. -/
  | moveDown {index : Nat} (h : index + 1 < list.size) :
      Leads list (.moveDown index) (list.withEntries (swapNext index list.entries))
  /-- Every entry is dropped. -/
  | clear : Leads list .clear list.clear
  /-- The list is cut or filled up. -/
  | resize (size : Nat) (handler : Handler) :
      Leads list (.resize size handler) (list.resize size handler)
  /-- An entry is exchanged for its switched form. -/
  | toggle {index : Nat} {cheat : Cheat} (h : list.entries[index]? = some cheat) :
      Leads list (.toggle index) { list with entries := list.entries.set index cheat.switched }
  /-- An entry becomes the draft. -/
  | stage {index : Nat} {cheat : Cheat} (h : list.entries[index]? = some cheat) :
      Leads list (.stage index) { list with draft := cheat }
  /-- The draft is edited. -/
  | edit (draft : Cheat) : Leads list (.edit draft) { list with draft := draft }
  /-- The draft is written over an entry. -/
  | commit {index : Nat} {cheat : Cheat} (h : list.entries[index]? = some cheat) :
      Leads list (.commit index)
        { list with
          entries := list.entries.set index
            (Cheat.restartRumble { list.draft with index := UInt32.ofNat index }) }
  /-- The matches of a search come behind the entries. -/
  | addMatches {search : Search} {current : Bytes}
      (h : search.count + list.size ≤ promotionLimit) :
      Leads list (.addMatches search current)
        { list with
          entries := list.entries ++
            search.candidates.toList.mapIdx (promoted search current list.size) }
  /-- A match that is looked at or ruled out leaves the list. -/
  | seen {search : Search} {current : Bytes} {action : MatchAction} {index : Nat}
      (h : action ≠ .copy) : Leads list (.act search current action index) list
  /-- A match that is copied comes behind the entries. -/
  | copied {search : Search} {current : Bytes} {index : Nat} {view : MatchView}
      (h : search.view current index = .ok view) :
      Leads list (.act search current .copy index) (list.push (matchCheat search view))
  /-- The cheats of a document come behind the entries. -/
  | appended {document : Document} {cheats : List Cheat}
      (h : CheatRecord.readAll document = .ok cheats) :
      Leads list (.load document true) (list.append cheats)
  /-- The cheats of a document come in place of the entries. -/
  | replaced {document : Document} {cheats : List Cheat}
      (h : CheatRecord.readAll document = .ok cheats) :
      Leads list (.load document false) (list.replace cheats)
  /-- The list is passed over. -/
  | frame (memory : Bytes) (now : Nat) :
      Leads list (.frame memory now)
        { list with entries := (applyFrame list.entries memory now).1 }

variable {list next : CheatList} {index : Nat} {search : Search} {current : Bytes}

theorem leads_of_insert {cheat : Cheat} (h : list.insert index cheat = (.ok (), next)) :
    list.Leads (.insert index cheat) next := by
  rw [insert] at h
  split at h
  · cases h
  · rename_i hle
    cases h
    exact .insert cheat (Nat.le_of_not_lt hle)

theorem leads_of_remove {removed : Cheat} (h : list.remove index = (.ok removed, next)) :
    list.Leads (.remove index) next := by
  obtain ⟨cheat, hcheat, hmade⟩ := withEntry_eq_ok.1 h
  cases hmade
  exact .remove hcheat

theorem leads_of_moveUp {place : Nat} (h : list.moveUp index = (.ok place, next)) :
    list.Leads (.moveUp index) next := by
  obtain ⟨cheat, hcheat, hmade⟩ := withEntry_eq_ok.1 h
  cases index with
  | zero =>
    cases hmade
    exact .moveUpFirst hcheat
  | succ index =>
    cases hmade
    exact .moveUp (List.getElem?_eq_some_iff.1 hcheat).1

theorem leads_of_moveDown {place : Nat} (h : list.moveDown index = (.ok place, next)) :
    list.Leads (.moveDown index) next := by
  obtain ⟨cheat, hcheat, hmade⟩ := withEntry_eq_ok.1 h
  have hlt : index < list.size := (List.getElem?_eq_some_iff.1 hcheat).1
  split at hmade
  · rename_i hlast
    cases hmade
    exact .moveDownLast hlast
  · cases hmade
    exact .moveDown (by omega)

theorem leads_of_toggle {enabled : Bool} (h : list.toggle index = (.ok enabled, next)) :
    list.Leads (.toggle index) next := by
  obtain ⟨cheat, hcheat, hmade⟩ := withEntry_eq_ok.1 h
  cases hmade
  exact .toggle hcheat

theorem leads_of_stage {draft : Cheat} (h : list.stage index = (.ok draft, next)) :
    list.Leads (.stage index) next := by
  obtain ⟨cheat, hcheat, hmade⟩ := withEntry_eq_ok.1 h
  cases hmade
  exact .stage hcheat

theorem leads_of_commit (h : list.commit index = (.ok (), next)) :
    list.Leads (.commit index) next := by
  obtain ⟨cheat, hcheat, hmade⟩ := withEntry_eq_ok.1 h
  cases hmade
  exact .commit hcheat

theorem leads_of_addMatches {count : Nat}
    (h : list.addMatches search current = (.ok count, next)) :
    list.Leads (.addMatches search current) next := by
  obtain ⟨_, rfl⟩ := eq_of_addMatches h
  refine .addMatches ?_
  rw [addMatches] at h
  split at h
  · cases h
  · rename_i hfits
    exact Nat.le_of_not_lt hfits

theorem leads_of_act {action : MatchAction} {view : MatchView} {left : Search}
    (h : list.act search current action index = (.ok view, next, left)) :
    list.Leads (.act search current action index) next := by
  cases action with
  | view | delete =>
    obtain rfl : list = next := congrArg (·.2.1) h
    exact .seen (by decide)
  | copy =>
    rw [act] at h
    split at h
    · rename_i hview
      cases h
      exact .copied hview
    · cases h

theorem leads_of_loadDocument {document : Document} {append : Bool} {count : Nat}
    (h : list.loadDocument document append = (.ok count, next)) :
    list.Leads (.load document append) next := by
  rw [loadDocument] at h
  split at h
  · rename_i hcheats
    cases append with
    | true =>
      cases h
      exact .appended hcheats
    | false =>
      cases h
      exact .replaced hcheats
  · cases h

/-- An action that goes through leads to what it makes of the list. -/
theorem leads_of_attempt {action : ListAction} (h : list.attempt action = (.ok (), next)) :
    list.Leads action next := by
  cases action with
  | push cheat =>
    cases h
    exact .push cheat
  | insert index cheat => exact leads_of_insert h
  | remove index =>
    obtain ⟨_, hremoved⟩ := forget_eq_ok_iff.1 h
    exact leads_of_remove hremoved
  | moveUp index =>
    obtain ⟨_, hmoved⟩ := forget_eq_ok_iff.1 h
    exact leads_of_moveUp hmoved
  | moveDown index =>
    obtain ⟨_, hmoved⟩ := forget_eq_ok_iff.1 h
    exact leads_of_moveDown hmoved
  | clear =>
    cases h
    exact .clear
  | resize size handler =>
    cases h
    exact .resize size handler
  | toggle index =>
    obtain ⟨_, htoggled⟩ := forget_eq_ok_iff.1 h
    exact leads_of_toggle htoggled
  | stage index =>
    obtain ⟨_, hstaged⟩ := forget_eq_ok_iff.1 h
    exact leads_of_stage hstaged
  | edit draft =>
    cases h
    exact .edit draft
  | commit index => exact leads_of_commit h
  | addMatches search current =>
    obtain ⟨_, hadded⟩ := forget_eq_ok_iff.1 h
    exact leads_of_addMatches hadded
  | act search current action index =>
    obtain ⟨hview, hnext⟩ := Prod.mk.inj h
    obtain ⟨view, hview, _⟩ := exists_of_map_eq_ok hview
    exact leads_of_act (Prod.ext hview (Prod.ext hnext rfl))
  | load document append =>
    obtain ⟨_, hloaded⟩ := forget_eq_ok_iff.1 h
    exact leads_of_loadDocument hloaded
  | frame memory now =>
    cases h
    exact .frame memory now

/-- An action that fails leaves the list. -/
theorem spares_attempt (list : CheatList) (action : ListAction) :
    (list.attempt action).Spares list := by
  cases action with
  | push | clear | resize | edit | frame => exact spares_ok _ _ list
  | insert index cheat => exact list.spares_insert index cheat
  | commit index => exact list.spares_withEntry index _
  | remove index | moveUp index | moveDown index | toggle index | stage index =>
    exact (list.spares_withEntry index _).forget
  | addMatches search current => exact (list.spares_addMatches search current).forget
  | act search current action index =>
    exact ((list.spares_act search current action index).within Prod.fst).forget
  | load document append => exact (list.spares_loadDocument document append).forget

/-- The list that an action leaves. -/
def after (list : CheatList) (action : ListAction) : CheatList := (list.attempt action).2

/-- A property of a list, and of all that an action can make of it, holds of what the action
leaves, whether it fails or not. -/
theorem after_induction (holds : CheatList → Prop) (action : ListAction) (hkept : holds list)
    (hnext : ∀ next, list.Leads action next → holds next) : holds (list.after action) := by
  apply (list.spares_attempt action).induction holds hkept
  intro _ next hattempt
  exact hnext next (leads_of_attempt hattempt)

/-- The rumble events that an action sends. Only a frame sends any. -/
def sent (list : CheatList) : ListAction → List RumbleEvent
  | .frame memory now => (applyFrame list.entries memory now).2.events
  | _ => []

end CheatList

/-- A cheat list and the rumble events that were sent so far, in order. -/
structure ListRun where
  /-- The list as it is now. -/
  list : CheatList := {}
  /-- The events sent so far. -/
  events : List RumbleEvent := []

namespace ListRun

/-- The run with one more action. -/
def act (run : ListRun) (action : ListAction) : ListRun :=
  ⟨run.list.after action, run.events ++ run.list.sent action⟩

/-- The run of actions, from the empty list. -/
def ofActions (actions : List ListAction) : ListRun :=
  actions.foldl act {}

@[simp] theorem ofActions_nil : ofActions [] = {} := rfl

@[simp] theorem ofActions_concat (actions : List ListAction) (action : ListAction) :
    ofActions (actions ++ [action]) = (ofActions actions).act action := by
  rw [ofActions, List.foldl_append]
  rfl

end ListRun

end GameTrainer
