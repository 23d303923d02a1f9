import GameTrainer.CheatFile
import GameTrainer.Proofs.SearchSoundness

/-!
# Operations that fail

An operation on a search or on a cheat list gives the state that it leaves also when it fails, and
so it could fail with a part of its work done. Main statement: whatever such an operation can fail
on, it looks for before it changes anything, and the state that it leaves then is the one that it
began with.
-/

namespace GameTrainer

namespace Outcome

variable {State Whole α : Type}

/-- If the operation failed, it left the state that it began with. -/
def Spares (outcome : Outcome State α) (before : State) : Prop :=
  ∀ failure, outcome.1 = .error failure → outcome.2 = before

/-- The outcome without what the operation gave. -/
def forget (outcome : Outcome State α) : Outcome State Unit :=
  (outcome.1.map fun _ => (), outcome.2)

/-- An operation that goes through has no failure to answer for. -/
theorem spares_ok (value : α) (left before : State) : Spares (.ok value, left) before :=
  fun _ h => nomatch h

theorem spares_error (failure : Failure) (before : State) :
    Spares (.error failure, before) before (α := α) :=
  fun _ _ => rfl

/-- What is done to a part of a state spares the whole when it spares the part. -/
theorem Spares.within {outcome : Outcome State α} {before : State} (h : outcome.Spares before)
    (whole : State → Whole) : Spares (outcome.1, whole outcome.2) (whole before) :=
  fun failure hfail => congrArg whole (h failure hfail)

theorem Spares.forget {outcome : Outcome State α} {before : State} (h : outcome.Spares before) :
    outcome.forget.Spares before := by
  intro failure hfail
  obtain ⟨found | value, left⟩ := outcome
  · exact h found rfl
  · cases hfail

/-- It goes through, or it fails and leaves the state. -/
theorem Spares.ok_or_error {outcome : Outcome State α} {before : State}
    (h : outcome.Spares before) :
    (∃ value left, outcome = (.ok value, left)) ∨
      ∃ failure, outcome = (.error failure, before) := by
  obtain ⟨failure | value, left⟩ := outcome
  · obtain rfl : left = before := h failure rfl
    exact Or.inr ⟨failure, rfl⟩
  · exact Or.inl ⟨value, left, rfl⟩

/-- A property of the state before, and of all that the operation leaves when it goes through, holds
of what it leaves. -/
theorem Spares.induction {outcome : Outcome State α} {before : State} (h : outcome.Spares before)
    (holds : State → Prop) (hkept : holds before)
    (hnext : ∀ value left, outcome = (.ok value, left) → holds left) : holds outcome.2 := by
  obtain ⟨value, left, hok⟩ | ⟨failure, herror⟩ := h.ok_or_error
  · rw [hok]
    exact hnext value left hok
  · rw [herror]
    exact hkept

/-- What went through went through with something to give. -/
theorem forget_eq_ok_iff {outcome : Outcome State α} {left : State} :
    outcome.forget = (.ok (), left) ↔ ∃ value, outcome = (.ok value, left) := by
  obtain ⟨failure | value, found⟩ := outcome <;> simp [forget, Except.map]

end Outcome

open Outcome

namespace Search

/-- A step is refused before the candidates are cut. -/
theorem spares_step (search : Search) (memory : CoreMemory) (query : Query) :
    (search.step memory query).Spares search := by
  obtain ⟨_, _, _, hstep⟩ | ⟨failure, hstep⟩ := search.step_cases memory query
  · rw [hstep]
    exact spares_ok _ _ _
  · rw [hstep]
    exact spares_error failure search

/-- An index is refused before a candidate is ruled out. -/
theorem spares_discard (search : Search) (current : Bytes) (index : Nat) :
    (search.discard current index).Spares search := by
  obtain ⟨_, _, _, hdiscard⟩ | ⟨failure, hdiscard⟩ := search.discard_cases current index
  · rw [hdiscard]
    exact spares_ok _ _ _
  · rw [hdiscard]
    exact spares_error failure search

end Search

namespace CheatList

variable {list : CheatList} {index : Nat}

/-- What is done with the entry at a place is done when there is one. -/
theorem withEntry_eq_ok {α : Type} {change : Cheat → α × CheatList} {value : α}
    {next : CheatList} :
    list.withEntry index change = (.ok value, next) ↔
      ∃ cheat, list.entries[index]? = some cheat ∧ change cheat = (value, next) := by
  rw [withEntry, get?]
  cases list.entries[index]? with
  | some cheat => simp [Prod.ext_iff]
  | none => simp

/-- A place is refused before anything is done with its entry. -/
theorem spares_withEntry {α : Type} (list : CheatList) (index : Nat)
    (change : Cheat → α × CheatList) : (list.withEntry index change).Spares list := by
  rw [withEntry]
  split
  · exact spares_ok _ _ _
  · exact spares_error _ list

theorem spares_toggle (list : CheatList) (index : Nat) : (list.toggle index).Spares list :=
  list.spares_withEntry index _

/-- A place is refused before an entry is put there. -/
theorem spares_insert (list : CheatList) (index : Nat) (cheat : Cheat) :
    (list.insert index cheat).Spares list := by
  rw [insert]
  split
  · exact spares_error _ list
  · exact spares_ok _ _ _

/-- Too many matches are refused before any is added. -/
theorem spares_addMatches (list : CheatList) (search : Search) (current : Bytes) :
    (list.addMatches search current).Spares list := by
  rw [addMatches]
  split
  · exact spares_error _ list
  · exact spares_ok _ _ _

/-- An index is refused before its match is copied or ruled out. -/
theorem spares_act (list : CheatList) (search : Search) (current : Bytes) (action : MatchAction)
    (index : Nat) : (list.act search current action index).Spares (list, search) := by
  cases action with
  | view => exact fun _ _ => rfl
  | copy =>
    rw [act]
    split
    · exact spares_ok _ _ _
    · exact spares_error _ (list, search)
  | delete => exact (search.spares_discard current index).within (list, ·)

/-- A document is read in full before the entries are exchanged. -/
theorem spares_loadDocument (list : CheatList) (document : Document) (append : Bool) :
    (list.loadDocument document append).Spares list := by
  rw [loadDocument]
  split
  · exact spares_ok _ _ _
  · exact spares_error _ list

/-- A file is read in full before the entries are exchanged. -/
theorem spares_load {Files : Type} [FileAccess (StateM Files)] (list : CheatList) (path : String)
    (append : Bool) (files : Files) :
    ((list.load path append : StateM Files (Outcome CheatList Nat)) files).1.Spares list := by
  rw [load, bind_apply]
  obtain ⟨failure | document, later⟩ := (readDocument path : StateM Files _) files
  · exact spares_error failure list
  · exact list.spares_loadDocument document append

end CheatList

end GameTrainer
