import GameTrainer.CheatEntry

/-!
# Cheat lists

A cheat list is an ordered list of entries, each of which carries its place in
the list, together with a draft: a copy of one entry that a user edits before
writing it back. An operation that can fail gives the list that it leaves beside
its result. Main statement: every operation leaves each entry with its own place.
-/

namespace GameTrainer

/-- What a user does with one search match. -/
inductive MatchAction where
  /-- Look at it. -/
  | view
  /-- Add it to the cheat list. -/
  | copy
  /-- Rule it out. -/
  | delete
  deriving DecidableEq, Repr

/-- An ordered list of cheats with the draft being edited. -/
structure CheatList where
  /-- The entries, in order. -/
  entries : List Cheat := []
  /-- The entry being edited. -/
  draft : Cheat := Cheat.blank 0 .trainer
  deriving DecidableEq, Repr

namespace CheatList

/-- The longest list that adding all matches of a search may produce. -/
def promotionLimit : Nat := 100

/-- Entries, each with its place as its index. -/
def renumber (entries : List Cheat) : List Cheat :=
  entries.mapIdx fun i cheat => { cheat with index := UInt32.ofNat i }

/-- The list with other entries, numbered anew. -/
def withEntries (list : CheatList) (entries : List Cheat) : CheatList :=
  { list with entries := renumber entries }

/-- The number of entries. -/
def size (list : CheatList) : Nat := list.entries.length

/-- The number of entries that are switched on. -/
def enabledCount (list : CheatList) : Nat :=
  list.entries.countP (·.enabled)

/-- The entry at a place. -/
def get? (list : CheatList) (index : Nat) : Option Cheat := list.entries[index]?

/-- What is done with the entry at a place, and the list then. Without an entry there nothing is
done, and the failure names the place. -/
def withEntry {α : Type} (list : CheatList) (index : Nat) (change : Cheat → α × CheatList) :
    Outcome CheatList α :=
  match list.get? index with
  | some cheat =>
    let (value, next) := change cheat
    (.ok value, next)
  | none => (.error (.cheatIndexOutOfRange index list.size), list)

/-- Add an entry at the end. -/
def push (list : CheatList) (cheat : Cheat) : CheatList :=
  { list with entries := list.entries ++ [{ cheat with index := UInt32.ofNat list.size }] }

/-- Put an entry before the one at a place, or at the end. -/
def insert (list : CheatList) (index : Nat) (cheat : Cheat) : Outcome CheatList Unit :=
  if index > list.size then (.error (.cheatIndexOutOfRange index list.size), list)
  else (.ok (), list.withEntries (list.entries.take index ++ cheat :: list.entries.drop index))

/-- Take the entry at a place out. -/
def remove (list : CheatList) (index : Nat) : Outcome CheatList Cheat :=
  list.withEntry index fun cheat => (cheat, list.withEntries (list.entries.eraseIdx index))

/-- Exchange the elements at a place and at the next one. -/
def swapNext {α : Type} : Nat → List α → List α
  | 0, first :: second :: rest => second :: first :: rest
  | index + 1, first :: rest => first :: swapNext index rest
  | _, elements => elements

/-- Exchange an entry with the one before it; the first stays. Gives its new place. -/
def moveUp (list : CheatList) (index : Nat) : Outcome CheatList Nat :=
  list.withEntry index fun _ =>
    if index = 0 then (0, list)
    else (index - 1, list.withEntries (swapNext (index - 1) list.entries))

/-- Exchange an entry with the one behind it; the last stays. Gives its new place. -/
def moveDown (list : CheatList) (index : Nat) : Outcome CheatList Nat :=
  list.withEntry index fun _ =>
    if index + 1 = list.size then (index, list)
    else (index + 1, list.withEntries (swapNext index list.entries))

/-- Drop every entry. -/
def clear (list : CheatList) : CheatList :=
  { list with entries := [] }

/-- Cut the list to a size, or fill it up with empty entries for a handler. -/
def resize (list : CheatList) (size : Nat) (handler : Handler) : CheatList :=
  let blanks := (List.range' list.size (size - list.size)).map fun i =>
    Cheat.blank (UInt32.ofNat i) handler
  { list with entries := list.entries.take size ++ blanks }

/-- Switch an entry on or off. Switching on begins a new rumble warm-up. -/
def toggle (list : CheatList) (index : Nat) : Outcome CheatList Bool :=
  list.withEntry index fun cheat =>
    let flipped := { cheat with enabled := !cheat.enabled }
    let toggled := if flipped.enabled then flipped.restartRumble else flipped
    (toggled.enabled, { list with entries := list.entries.set index toggled })

/-- Copy an entry into the draft. Gives the draft. -/
def stage (list : CheatList) (index : Nat) : Outcome CheatList Cheat :=
  list.withEntry index fun cheat => (cheat, { list with draft := cheat })

/-- Write the draft over an entry and begin a new rumble warm-up. -/
def commit (list : CheatList) (index : Nat) : Outcome CheatList Unit :=
  list.withEntry index fun _ =>
    let placed := { list.draft with index := UInt32.ofNat index }
    ((), { list with entries := list.entries.set index placed.restartRumble })

/-- The entry that pins a search match. -/
def matchCheat (search : Search) (view : MatchView) : Cheat :=
  Cheat.ofPatch (Patch.ofMatch view search.snapshot.width search.snapshot.bigEndian)

/-- Add every match of a search, pinned to its value now, or none of them when
the list would grow too long. Gives the number of matches. -/
def addMatches (list : CheatList) (search : Search) (current : Bytes) : Outcome CheatList Nat :=
  if search.count + list.size > promotionLimit then
    (.error (.tooManyMatches search.count list.size promotionLimit), list)
  else
    (.ok search.count, ((search.views current).map (matchCheat search)).foldl push list)

/-- Look at, add, or rule out the match with an index. Gives the match, and leaves a list and a
search. -/
def act (list : CheatList) (search : Search) (current : Bytes) (action : MatchAction)
    (index : Nat) : Outcome (CheatList × Search) MatchView :=
  match action with
  | .view => (search.view current index, list, search)
  | .copy =>
    match search.view current index with
    | .ok view => (.ok view, list.push (matchCheat search view), search)
    | .error failure => (.error failure, list, search)
  | .delete =>
    let (result, left) := search.discard current index
    (result, list, left)

/-- The enabled codes for the core that are not empty, in order. -/
def coreCodes (list : CheatList) : List String :=
  list.entries.filterMap fun cheat =>
    if cheat.enabled then cheat.code?.filter (!·.isEmpty) else none

/-- Add entries at the end, each with a new rumble warm-up. -/
def append (list : CheatList) (cheats : List Cheat) : CheatList :=
  list.withEntries (list.entries ++ cheats.map Cheat.restartRumble)

/-- Exchange all entries for others, each with a new rumble warm-up. -/
def replace (list : CheatList) (cheats : List Cheat) : CheatList :=
  list.withEntries (cheats.map Cheat.restartRumble)

/-- Each entry's index is its place. -/
def Numbered (entries : List Cheat) : Prop :=
  ∀ i cheat, entries[i]? = some cheat → cheat.index = UInt32.ofNat i

/-- Renumbered entries carry their places. -/
theorem numbered_renumber (entries : List Cheat) : Numbered (renumber entries) := by
  intro i cheat h
  simp only [renumber, List.getElem?_mapIdx, Option.map_eq_some_iff] at h
  obtain ⟨_, _, rfl⟩ := h
  rfl

/-- Adding an entry at the end keeps the places. -/
theorem numbered_push {list : CheatList} (cheat : Cheat) (h : Numbered list.entries) :
    Numbered (list.push cheat).entries := by
  intro i placed hplaced
  rw [push, List.getElem?_append] at hplaced
  split at hplaced
  · exact h i placed hplaced
  · rename_i hle
    rw [List.getElem?_singleton] at hplaced
    split at hplaced
    · rename_i hzero
      cases hplaced
      have : list.size = i := by simp only [size]; omega
      rw [this]
    · cases hplaced

end CheatList

end GameTrainer
