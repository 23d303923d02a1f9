import Mathlib.Data.List.Nodup
import GameTrainer.Proofs.CandidateWalk
import GameTrainer.Proofs.ItemBits
import GameTrainer.Proofs.SearchSoundness

/-!
# Matches by their indices

A match has no name but its place among the matches that are left, found by a walk each time it is
asked for. To rule it out, the address found there is told to the set again, with a bit offset only
at widths below one byte, while the number of matches is kept apart. Main statement: in every
search that can be reached these agree. An index below the number of matches shows the item at that
place of the list with the values that it has, and ruling it out takes that item and no other out
of the list; any other index is refused with the number of matches.
-/

namespace GameTrainer

/-- An item of whole bytes begins with its byte. -/
theorem ItemAddress.InGrid.bit_eq_zero {width : Width} {size : Nat} {address : ItemAddress}
    (h : address.InGrid width size) (hs : width.isSubByte = false) : address.bit = 0 := by
  have hbit : address.bit ∈ width.bitOffsets := Width.mem_bitOffsets.2 ⟨h.bitAligned, h.bit_lt⟩
  cases width with
  | bits1 | bits2 | bits4 => cases hs
  | bits8 | bits16 | bits32 => exact List.mem_singleton.1 hbit

namespace Candidates

/-- The bit offset by which a removal picks the item at an address. -/
def pick (width : Width) (address : ItemAddress) : Option Nat :=
  if width.isSubByte then some address.bit else none

/-- A removal that picks an item of a region drops this one and no other. -/
theorem drops_pick {width : Width} {size : Nat} {address other : ItemAddress}
    (ha : address.InGrid width size) (ho : other.InGrid width size) :
    (Elimination.remove address.byte (pick width address)).drops width other =
      (other == address) := by
  have hsame : other = address ↔ other.byte = address.byte ∧ other.bit = address.bit := by
    cases other
    cases address
    exact ItemAddress.mk.injEq .. ▸ Iff.rfl
  rw [Bool.eq_iff_iff, beq_iff_eq, hsame, Elimination.drops, pick]
  cases hs : width.isSubByte with
  | true => simp
  | false => simp [ha.bit_eq_zero hs, ho.bit_eq_zero hs]

/-- Removing the candidate at a place of the list takes this one out of it. -/
theorem toList_remove_pick {set : Candidates} {size index : Nat} {address : ItemAddress}
    (hc : set.Covers size) (h : set.toList[index]? = some address) :
    (set.remove address.byte (pick set.width address)).toList = set.toList.eraseIdx index := by
  obtain ⟨hlt, hat⟩ := List.getElem?_eq_some_iff.1 h
  have hnodup := nodup_toList hc
  have ha : address ∈ set.toList := List.mem_of_getElem? h
  calc (set.remove address.byte (pick set.width address)).toList
      = set.toList.filter fun other =>
          !(Elimination.remove address.byte (pick set.width address)).drops set.width other :=
        (keeps_remove hc _ _).toList
    _ = set.toList.filter fun other => other != address := by
        apply List.filter_congr
        intro other ho
        rw [drops_pick ((mem_toList hc).1 ha).1 ((mem_toList hc).1 ho).1]
        rfl
    _ = set.toList.erase address := (hnodup.erase_eq_filter address).symm
    _ = set.toList.eraseIdx index := by
        rw [← hat]
        exact hnodup.erase_getElem index hlt

end Candidates

namespace Search

/-- A view shows the item at an address, by its index, with the values that it has at the previous
step and now. -/
structure Shows (search : Search) (current : Bytes) (index : Nat) (address : ItemAddress)
    (seen : MatchView) : Prop where
  /-- It shows the index. -/
  numbered : seen.index = index
  /-- It shows the byte offset of the item. -/
  located : seen.address = UInt32.ofNat address.byte
  /-- It shows the bits of the item in its byte. -/
  masked : seen.bitMask = address.bitMask search.snapshot.width
  /-- The item had the previous value that it shows. -/
  previous : search.snapshot.itemIn search.snapshot.previous address = some seen.previous
  /-- The item has the value that it shows. -/
  current : search.snapshot.itemIn current address = some seen.current

/-- The items of the region have values at the previous step and now, so a view shows these. -/
theorem shows_viewAt {search : Search} {current : Bytes} {address : ItemAddress}
    (h : address.InGrid search.snapshot.width search.snapshot.size)
    (hc : current.size = search.snapshot.size) (index : Nat) :
    search.Shows current index address (search.viewAt current index address) := by
  have hbefore : Bytes.Holds search.snapshot.previous.size address search.snapshot.width := h.holds
  have hnow : Bytes.Holds current.size address search.snapshot.width := hc.symm ▸ h.holds
  obtain ⟨previous, hprevious⟩ := Bytes.exists_readItem search.snapshot.bigEndian hbefore
  obtain ⟨value, hvalue⟩ := Bytes.exists_readItem search.snapshot.bigEndian hnow
  refine ⟨rfl, rfl, rfl, ?_, ?_⟩
  · rw [viewAt, Snapshot.itemIn, hprevious]
    rfl
  · rw [viewAt, Snapshot.itemIn, Snapshot.itemIn, hvalue]
    rfl

/-- The search without the candidate at an address. -/
def without (search : Search) (address : ItemAddress) : Search :=
  { search with
    candidates := search.candidates.remove address.byte
      (Candidates.pick search.snapshot.width address) }

/-- The candidate with an index is looked at and ruled out where it stands in the list. -/
theorem view_and_discard_eq_ok {search : Search} {index : Nat} {address : ItemAddress}
    (h : search.candidates.toList[index]? = some address) (current : Bytes) :
    search.view current index = .ok (search.viewAt current index address) ∧
      search.discard current index =
        (.ok (search.viewAt current index address), search.without address) := by
  have hlocate : search.locate index = .ok address := by
    rw [locate, Candidates.nth?_eq, h]
  rw [view, discard, hlocate]
  exact ⟨rfl, rfl⟩

/-- An index behind the list is refused, and the search stays as it is. -/
theorem view_and_discard_eq_error {search : Search} {index : Nat}
    (h : search.candidates.toList[index]? = none) (current : Bytes) :
    search.view current index = .error (.matchIndexOutOfRange index search.count) ∧
      search.discard current index =
        (.error (.matchIndexOutOfRange index search.count), search) := by
  have hlocate : search.locate index = .error (.matchIndexOutOfRange index search.count) := by
    rw [locate, Candidates.nth?_eq, h]
  rw [view, discard, hlocate]
  exact ⟨rfl, rfl⟩

/-- The views stand in the order of the candidates. -/
theorem getElem?_views (search : Search) (current : Bytes) (index : Nat) :
    (search.views current)[index]? =
      (search.candidates.toList[index]?).map (search.viewAt current index) := by
  rw [views, List.getElem?_mapIdx]

/-- In every search that can be reached, the matches are as many as the kept number says. An index
below it finds a match, of which the list of all matches shows the same, and its values are those
of the item; to rule it out gives what is shown, takes it out of the list, so that those behind it
move up by one, lowers the number by one, and leaves the snapshot. Any other index is refused with
the index and the number, and the search stays as it is. -/
theorem match_index_finds_candidate {search : Search} (hr : search.Reachable) {current : Bytes}
    (hc : current.size = search.snapshot.size) (index : Nat) :
    let alive := search.candidates.toList
    let views := search.views current
    search.candidates.Walks {} alive.zipIdx ∧ views.length = search.count ∧
      (index < search.count → ∃ address seen next,
        alive[index]? = some address ∧ views[index]? = some seen ∧
        search.Shows current index address seen ∧
        search.view current index = .ok seen ∧
        search.discard current index = (.ok seen, next) ∧
        next.candidates.toList = alive.eraseIdx index ∧
        next.candidates.Walks {} (alive.eraseIdx index).zipIdx ∧
        next.count = search.count - 1 ∧ next.snapshot = search.snapshot) ∧
      (search.count ≤ index →
        views[index]? = none ∧
        search.view current index = .error (.matchIndexOutOfRange index search.count) ∧
        search.discard current index =
          (.error (.matchIndexOutOfRange index search.count), search)) := by
  intro alive views
  have hsound := hr.sound
  have hcount : search.count = alive.length := hsound.counted
  refine ⟨search.candidates.walks_toList, ?_, fun hindex => ?_, fun hindex => ?_⟩
  · exact List.length_mapIdx.trans hcount.symm
  · rw [hcount] at hindex
    have hat : alive[index]? = some alive[index] := List.getElem?_eq_getElem hindex
    have hgrid := hsound.inGrid (List.mem_of_getElem? hat)
    obtain ⟨hview, hdiscard⟩ := view_and_discard_eq_ok hat current
    have hleft : (search.without alive[index]).candidates.toList = alive.eraseIdx index := by
      rw [without, ← hsound.width]
      exact Candidates.toList_remove_pick hsound.covers hat
    refine ⟨_, _, _, hat, ?_, shows_viewAt hgrid hc index, hview, hdiscard, hleft, ?_, ?_, rfl⟩
    · rw [getElem?_views, hat]
      rfl
    · rw [← hleft]
      exact Candidates.walks_toList _
    · have hnext := (hr.of_discard hdiscard).sound.counted
      rw [count, hnext, hleft, List.length_eraseIdx_of_lt hindex, hcount]
  · rw [hcount] at hindex
    have hbehind : alive[index]? = none := List.getElem?_eq_none hindex
    refine ⟨?_, view_and_discard_eq_error hbehind current⟩
    rw [getElem?_views, hbehind]
    rfl

/-- A search that began on some bytes and took a step on the same bytes can be reached. -/
theorem reachable_narrowed {content : Bytes} (hne : content.size ≠ 0) (region : Region)
    (width : Width) (bigEndian : Bool) (query : Query) :
    (narrowed ⟨⟨region, width, bigEndian, content⟩, .all content.size width⟩ content
      query).Reachable := by
  have hget := CoreMemory.get?_single region content
  have hbegin := Reachable.begin (begin_eq_ok width bigEndian hget hne)
  exact hbegin.of_step (step_eq_ok query hget rfl)

/-- After the only match of the first byte was ruled out, two items of two bits are left in the
second byte. Ruling out the one with index 1 leaves the other. -/
theorem match_index_finds_candidate_of_shared_byte :
    let content : Bytes := #[0xB4, 0x1F]
    let current : Bytes := #[0x90, 0x06]
    let search : Search := Search.narrowed
      ⟨⟨.systemRam, .bits2, false, content⟩, .all 2 .bits2⟩ content (.exact 3)
    let left := search.without ⟨0, 4⟩
    left.Reachable ∧ current.size = left.snapshot.size ∧
      left.candidates.toList = [⟨1, 0⟩, ⟨1, 2⟩] ∧ 1 < left.count ∧
      ∃ seen next, left.view current 1 = .ok seen ∧ seen.previous = 3 ∧ seen.current = 1 ∧
        left.discard current 1 = (.ok seen, next) ∧ next.candidates.toList = [⟨1, 0⟩] := by
  intro content current search left
  have hfirst : search.candidates.toList[0]? = some ⟨0, 4⟩ := by decide
  have hr : left.Reachable :=
    (reachable_narrowed (by decide) .systemRam .bits2 false (.exact 3)).of_discard
      (view_and_discard_eq_ok hfirst current).2
  have hsize : current.size = left.snapshot.size := rfl
  have hleft : left.candidates.toList = [⟨1, 0⟩, ⟨1, 2⟩] := by decide
  have hindex : 1 < left.count := by decide
  obtain ⟨_, _, hfinds, _⟩ := match_index_finds_candidate hr hsize 1
  obtain ⟨address, seen, next, hat, _, hshows, hview, hdiscard, hnext, _⟩ := hfinds hindex
  rw [hleft] at hat hnext
  cases hat
  have hbefore : left.snapshot.itemIn left.snapshot.previous ⟨1, 2⟩ = some 3 := by decide
  have hnow : left.snapshot.itemIn current ⟨1, 2⟩ = some 1 := by decide
  have hprevious : seen.previous = 3 := Option.some.inj (hshows.previous.symm.trans hbefore)
  have hcurrent : seen.current = 1 := Option.some.inj (hshows.current.symm.trans hnow)
  exact ⟨hr, hsize, hleft, hindex, seen, next, hview, hprevious, hcurrent, hdiscard, hnext⟩

end Search

end GameTrainer
