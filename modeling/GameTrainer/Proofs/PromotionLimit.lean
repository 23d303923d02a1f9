import GameTrainer.Trainer
import GameTrainer.Proofs.MatchIndices
import GameTrainer.Proofs.SearchHistory
import GameTrainer.Proofs.MatchPromotion

/-!
# Adding matches within the limit

All matches of a search are added to a cheat list together, or none when the list would grow past
100 entries. What is compared with the limit is the number that the search keeps beside its masks;
what is added comes from a walk over the masks. Main statement: in every search that can be reached
they agree, so the list gains one entry for each match, which sets the item to the value that its
view shows, the entries before stay as they are, and no list that gained entries is longer than the
limit.
-/

namespace GameTrainer

namespace CheatList

/-- The entry at a place of a list, which is off, sets an item of a search to a value. -/
structure PlacedSet (search : Search) (address : ItemAddress) (value : UInt32) (place : Nat)
    (cheat : Cheat) (patch : Patch) : Prop where
  /-- Its index is its place. -/
  index : cheat.index.toNat = place
  /-- It has no description. -/
  description : cheat.description = none
  /-- It is off. -/
  disabled : cheat.enabled = false
  /-- It is a patch. -/
  effect : cheat.effect = .patch patch
  /-- The patch sets its item. -/
  operation : patch.operation = .set
  /-- It sets the item to the value. -/
  value : patch.value = value
  /-- It has the byte offset of the item. -/
  located : patch.address.toNat = address.byte
  /-- It has the bits of the item in its byte. -/
  masked : patch.bitMask = address.bitMask search.snapshot.width
  /-- Its item is that of the search. -/
  start : patch.start = address
  /-- It has the width of the search. -/
  width : patch.width = search.snapshot.width
  /-- It has the byte order of the search. -/
  bigEndian : patch.bigEndian = search.snapshot.bigEndian
  /-- It is not repeated. -/
  repetition : patch.repetition = {}
  /-- It does not rumble. -/
  rumble : patch.rumble = {} ∧ patch.rumbleState = {}

/-- A list gains the matches of a search behind its entries. -/
structure Gains (list : CheatList) (search : Search) (current : Bytes) (added : CheatList) :
    Prop where
  /-- The entries before stay as they are. -/
  kept : added.entries.take list.size = list.entries
  /-- So does the draft. -/
  draft : added.draft = list.draft
  /-- There are as many new entries as matches. -/
  size : added.size = list.size + search.candidates.toList.length
  /-- In order, each sets the item of a match to the value that its view shows. -/
  gained : ∀ i address, search.candidates.toList[i]? = some address →
    ∃ seen cheat patch, (search.views current)[i]? = some seen ∧
      added.get? (list.size + i) = some cheat ∧
      PlacedSet search address seen.current (list.size + i) cheat patch

variable {search : Search} {list : CheatList}

/-- The entry that a match becomes sets its item to the value that its view shows. -/
theorem placedSet_promoted {start i : Nat} {address : ItemAddress}
    (h : address.InGrid search.snapshot.width search.snapshot.size)
    (hsize : search.snapshot.size ≤ UInt32.size) (hplace : start + i < UInt32.size)
    (current : Bytes) :
    let seen := search.viewAt current i address
    PlacedSet search address seen.current (start + i) (promoted search current start i address)
      (Patch.ofMatch seen search.snapshot.width search.snapshot.bigEndian) := by
  intro seen
  have hbyte : address.byte < UInt32.size := by
    have hholds := h.holds
    have hpos := search.snapshot.width.layout_bytes_pos
    unfold Bytes.Holds at hholds
    omega
  exact {
    index := UInt32.toNat_ofNat_of_lt' hplace
    description := rfl
    disabled := rfl
    effect := rfl
    operation := rfl
    value := rfl
    located := UInt32.toNat_ofNat_of_lt' hbyte
    masked := rfl
    start := address.ofMask_bitMask h hsize
    width := rfl
    bigEndian := rfl
    repetition := rfl
    rumble := ⟨rfl, rfl⟩ }

/-- Matches that fit are added. -/
theorem addMatches_eq_ok (hcount : search.count = search.candidates.toList.length)
    (hfits : search.candidates.toList.length + list.size ≤ promotionLimit) (current : Bytes) :
    list.addMatches search current = (.ok search.candidates.toList.length,
      { list with entries := list.entries ++
          search.candidates.toList.mapIdx (promoted search current list.size) }) := by
  have hnot : ¬search.count + list.size > promotionLimit := by
    rw [hcount]
    exact Nat.not_lt.2 hfits
  have hadd : ∃ added, list.addMatches search current = (.ok search.count, added) := by
    rw [addMatches, if_neg hnot]
    exact ⟨_, rfl⟩
  obtain ⟨added, hadd⟩ := hadd
  rw [hadd, (eq_of_addMatches hadd).2, hcount]

/-- Matches that do not fit are refused, and the list stays as it is. -/
theorem addMatches_eq_error (hcount : search.count = search.candidates.toList.length)
    (hmany : promotionLimit < search.candidates.toList.length + list.size) (current : Bytes) :
    list.addMatches search current =
      (.error (.tooManyMatches search.candidates.toList.length list.size promotionLimit),
        list) := by
  rw [addMatches, hcount, if_pos hmany]

/-- What stands behind a list when matches were added are these matches. -/
theorem gains_promoted (hsound : search.Sound) (hsize : search.snapshot.size ≤ UInt32.size)
    (hfits : search.candidates.toList.length + list.size ≤ promotionLimit) (current : Bytes) :
    list.Gains search current
      { list with entries := list.entries ++
          search.candidates.toList.mapIdx (promoted search current list.size) } where
  kept := List.take_left
  draft := rfl
  size := by
    rw [size, List.length_append, List.length_mapIdx]
    rfl
  gained := by
    intro i address hat
    have hi : i < search.candidates.toList.length := (List.getElem?_eq_some_iff.1 hat).1
    have hplace : list.size + i < UInt32.size := by
      have hlimit : promotionLimit < UInt32.size := by decide
      omega
    have hgrid := hsound.inGrid (List.mem_of_getElem? hat)
    refine ⟨_, promoted search current list.size i address, _, ?_, ?_,
      placedSet_promoted hgrid hsize hplace current⟩
    · rw [Search.getElem?_views, hat]
      rfl
    · rw [get?, size, List.getElem?_append_right (Nat.le_add_right _ _), Nat.add_sub_cancel_left,
        List.getElem?_mapIdx, hat]
      rfl

/-- In every search that can be reached, on a region of no more bytes than words can number: when
the matches and the entries of a list are more than 100 together, adding the matches is refused with
both numbers, the list stays as it is and a trainer keeps all that it has. Otherwise the matches are
added and their number is given, the list has no more than 100 entries then, and a trainer keeps its
search. -/
theorem matches_are_added_within_limit {search : Search} (hr : search.Reachable)
    (hsize : search.snapshot.size ≤ UInt32.size) (current : Bytes) (list : CheatList) :
    let alive := search.candidates.toList
    let trainer (settings : Settings) (cheats : CheatList) : Trainer :=
      ⟨settings, cheats, some search⟩
    alive.Pairwise ItemAddress.Before ∧
      (100 < alive.length + list.size →
        list.addMatches search current =
          (.error (.tooManyMatches alive.length list.size 100), list) ∧
        ∀ settings memory, search.snapshot.live memory = .ok current →
          ((trainer settings list).addMatches memory).trainer = trainer settings list) ∧
      (alive.length + list.size ≤ 100 → ∃ added,
        list.addMatches search current = (.ok alive.length, added) ∧
        list.Gains search current added ∧ added.size ≤ 100 ∧
        ∀ settings memory, search.snapshot.live memory = .ok current →
          ((trainer settings list).addMatches memory).trainer = trainer settings added) := by
  intro alive trainer
  have hsound := hr.sound
  have hcount : search.count = alive.length := hsound.counted
  refine ⟨Candidates.pairwise_toList hsound.covers, fun hmany => ?_, fun hfits => ?_⟩
  · have hadd := addMatches_eq_error hcount hmany current
    refine ⟨hadd, fun settings memory hlive => ?_⟩
    rw [Trainer.addMatches_of_live rfl hlive, hadd]
    rfl
  · have hadd := addMatches_eq_ok hcount hfits current
    have hgains := gains_promoted hsound hsize hfits current
    refine ⟨_, hadd, hgains, ?_, fun settings memory hlive => ?_⟩
    · rw [hgains.size, Nat.add_comm]
      exact hfits
    · rw [Trainer.addMatches_of_live rfl hlive, hadd]
      rfl

/-- Three matches fit behind 97 entries, where the last of them gets the index 99 and the value 1,
and do not fit behind 98. -/
theorem matches_are_added_within_limit_of_three_matches :
    let content : Bytes := #[0xB4, 0x1F]
    let current : Bytes := #[0x90, 0x06]
    let search : Search := Search.narrowed
      ⟨⟨.systemRam, .bits2, false, content⟩, .all 2 .bits2⟩ content (.exact 3)
    let filled (size : Nat) : CheatList := { entries := List.replicate size (Cheat.blank 0 .core) }
    search.Reachable ∧ search.snapshot.size ≤ UInt32.size ∧
      (filled 98).addMatches search current =
        (.error (.tooManyMatches 3 98 100), filled 98) ∧
      ∃ added cheat patch, (filled 97).addMatches search current = (.ok 3, added) ∧
        added.size ≤ 100 ∧ added.get? 99 = some cheat ∧
        PlacedSet search ⟨1, 2⟩ 1 99 cheat patch := by
  intro content current search filled
  have hr : search.Reachable := Search.reachable_narrowed (by decide) .systemRam .bits2 false _
  have hsize : search.snapshot.size ≤ UInt32.size := by decide
  have hmatches : search.candidates.toList.length = 3 := by decide
  have hfilled : ∀ size, (filled size).size = size := fun _ => List.length_replicate
  obtain ⟨_, hmany, _⟩ := matches_are_added_within_limit hr hsize current (filled 98)
  obtain ⟨_, _, hfits⟩ := matches_are_added_within_limit hr hsize current (filled 97)
  rw [hmatches, hfilled] at hmany hfits
  obtain ⟨hrefused, _⟩ := hmany (by decide)
  obtain ⟨added, hadded, hgains, hlimit, _⟩ := hfits (by decide)
  have hlast : search.candidates.toList[2]? = some ⟨1, 2⟩ := by decide
  have hshown : (search.views current)[2]? = some ⟨2, 1, 0x0C, 3, 1⟩ := by decide
  obtain ⟨seen, cheat, patch, hseen, hget, hplaced⟩ := hgains.gained 2 _ hlast
  rw [hshown, Option.some.injEq] at hseen
  rw [hfilled] at hget hplaced
  rw [← hseen] at hplaced
  exact ⟨hr, hsize, hrefused, added, cheat, patch, hadded, hlimit, hget, hplaced⟩

end CheatList

end GameTrainer
