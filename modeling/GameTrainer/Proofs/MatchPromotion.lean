import GameTrainer.Proofs.EntrySwitches
import GameTrainer.Proofs.PinningPass
import GameTrainer.Proofs.SearchSoundness

/-!
# Pinning the matches of a search

The matches of a search can be added to a cheat list, each as a cheat that pins
the item to the value it has now. A search finds an item by byte and bit, a cheat
by a word and a mask over the byte. Main statement: after every match has been
added and switched on, in any order, one pass over a list whose other entries are
off gives every candidate its value back, leaves every bit that belongs to none
of them, and counts each of them once.
-/

namespace GameTrainer

namespace ItemAddress

/-- Over a region of no more bytes than words can number, the word and the mask of a cheat find the
item that they were made from. -/
theorem ofMask_bitMask {width : Width} {size : Nat} {address : ItemAddress}
    (h : address.InGrid width size) (hsize : size ≤ UInt32.size) :
    ofMask (UInt32.ofNat address.byte) (address.bitMask width) width = address := by
  have hholds := h.holds
  have hpos := width.layout_bytes_pos
  unfold Bytes.Holds at hholds
  have hbyte : (UInt32.ofNat address.byte).toNat = address.byte := by
    apply UInt32.toNat_ofNat_of_lt'
    omega
  have hbit : address.bit ∈ width.bitOffsets := Width.mem_bitOffsets.2 ⟨h.bitAligned, h.bit_lt⟩
  have hoffset : ∀ bit ∈ width.bitOffsets,
      (if width.isSubByte then
        maskBitOffset (if width.isSubByte then width.layout.mask <<< UInt32.ofNat bit else 0xFF)
      else 0) = bit := by
    cases width <;> decide
  rw [ofMask, hbyte, bitMask, hoffset address.bit hbit]

end ItemAddress

namespace CheatList

/-- The entry that pins a candidate, at its place in a list. -/
def promoted (search : Search) (current : Bytes) (start i : Nat) (address : ItemAddress) : Cheat :=
  { matchCheat search (search.viewAt current i address) with index := UInt32.ofNat (start + i) }

/-- Entries that are added one after the other stand behind the list, in order. -/
theorem foldl_push (list : CheatList) (cheats : List Cheat) :
    cheats.foldl push list =
      { list with entries := list.entries ++ cheats.mapIdx fun i cheat =>
          { cheat with index := UInt32.ofNat (list.size + i) } } := by
  induction cheats generalizing list with
  | nil => rw [List.mapIdx_nil, List.append_nil, List.foldl_nil]
  | cons cheat rest ih =>
    have hsize : (list.push cheat).size = list.size + 1 := by
      rw [size, push, List.length_append]
      rfl
    rw [List.foldl_cons, ih, hsize, push, List.mapIdx_cons, List.append_assoc]
    simp only [Nat.add_assoc, Nat.add_comm 1]
    rfl

/-- What is made of each element at its place can be made at once. -/
theorem map_mapIdx {α β γ : Type} (make : Nat → α → β) (change : β → γ) (elements : List α) :
    (elements.mapIdx make).map change =
      elements.mapIdx fun i element => change (make i element) := by
  rw [List.mapIdx_eq_zipIdx_map, List.map_map, List.mapIdx_eq_zipIdx_map]
  rfl

/-- Matches that are added stand behind the list, in the order of their addresses. -/
theorem eq_of_addMatches {list added : CheatList} {search : Search} {current : Bytes} {n : Nat}
    (h : list.addMatches search current = (.ok n, added)) :
    n = search.count ∧
      added = { list with entries := list.entries ++
        search.candidates.toList.mapIdx (promoted search current list.size) } := by
  rw [addMatches] at h
  split at h
  · cases h
  · cases h
    refine ⟨rfl, ?_⟩
    rw [foldl_push, Search.views, map_mapIdx, List.mapIdx_mapIdx]
    rfl

/-- Switched on, the entry for a candidate pins its item to the value it has now. -/
theorem pins_promoted {search : Search} {current : Bytes} (start i : Nat) {address : ItemAddress}
    (h : address.InGrid search.snapshot.width search.snapshot.size)
    (hsize : search.snapshot.size ≤ UInt32.size) (hc : current.size = search.snapshot.size) :
    (promoted search current start i address).switched.Pins current search.snapshot.width
      search.snapshot.bigEndian address := by
  have hholds : Bytes.Holds current.size address search.snapshot.width := hc.symm ▸ h.holds
  obtain ⟨value, hvalue⟩ := Bytes.exists_readItem search.snapshot.bigEndian hholds
  refine ⟨rfl, _, rfl, rfl, rfl, rfl, rfl, address.ofMask_bitMask h hsize, ?_⟩
  change _ = some ((search.snapshot.itemIn current address).getD 0)
  rw [Snapshot.itemIn, hvalue]
  rfl

/-- The matches that were added are switched on in any order, and nothing else is. -/
theorem toggleAll_of_addMatches {list added : CheatList} {search : Search} {current : Bytes}
    {n : Nat} (hcount : search.count = search.candidates.toList.length)
    (hadd : list.addMatches search current = (.ok n, added)) {order : List Nat}
    (horder : order.Perm (List.range' list.size n)) :
    added.toggleAll order =
      (.ok (), { list with
        entries := list.entries ++ search.candidates.toList.mapIdx fun i address =>
          (promoted search current list.size i address).switched }) := by
  obtain ⟨rfl, rfl⟩ := eq_of_addMatches hadd
  have hmem : ∀ i, i ∈ order ↔ list.entries.length ≤ i ∧ i < list.entries.length +
      (search.candidates.toList.mapIdx (promoted search current list.size)).length := by
    intro i
    rw [horder.mem_iff, List.mem_range'_1, List.length_mapIdx, hcount]
    rfl
  rw [toggleAll_eq_ok (horder.symm.nodup List.nodup_range')]
  · dsimp only
    rw [switchAt_back hmem, map_mapIdx]
  · intro place hp
    rw [size, List.length_append]
    exact ((hmem place).1 hp).2

/-- After every match has been added and then switched on, in any order, a pass over
the list gives each candidate the value that it has now, and touches nothing else. -/
theorem pass_pins_matches {search : Search} (hr : search.Reachable)
    (hsize : search.snapshot.size ≤ UInt32.size) {current memory : Bytes}
    (hc : current.size = search.snapshot.size) (hm : memory.size = search.snapshot.size)
    {list added : CheatList} {n : Nat} (hoff : ∀ cheat ∈ list.entries, cheat.enabled = false)
    (hadd : list.addMatches search current = (.ok n, added)) {order : List Nat}
    (horder : order.Perm (List.range' list.size n)) (now : Nat) :
    n = search.candidates.toList.length ∧
      ∃ enabled, added.toggleAll order = (.ok (), enabled) ∧
        (∀ address ∈ search.candidates.toList, ∃ value,
          search.snapshot.itemIn current address = some value ∧
          search.snapshot.itemIn (applyFrame enabled.entries memory now).2.memory address =
            some value) ∧
        (∀ position,
          (∀ address ∈ search.candidates.toList,
            ¬address.Takes search.snapshot.width position) →
          (applyFrame enabled.entries memory now).2.memory.bit? position =
            memory.bit? position) ∧
        (applyFrame enabled.entries memory now).2.tally =
          { evaluated := n, skipped := 0, writes := n, outOfRange := 0 } := by
  have hsound := hr.sound
  have hcount : n = search.candidates.toList.length :=
    (eq_of_addMatches hadd).1.trans hsound.counted
  refine ⟨hcount, _, toggleAll_of_addMatches hsound.counted hadd horder, ?_⟩
  obtain ⟨events, hfront⟩ :=
    FramePass.applyAll_of_disabled { memory := memory } now hoff
  rw [applyFrame, FramePass.applyAll_append, hfront]
  generalize hafter : (FramePass.applyAll { memory := memory, events := events } now _).2 = after
  have hpinned : FramePass.Pinned current search.snapshot.width search.candidates.toList
      { memory := memory, events := events } after := by
    rw [← hafter]
    apply FramePass.pinned_applyAll
    · intro i address ha
      exact pins_promoted list.size i (hsound.inGrid ha) hsize hc
    · intro address ha
      exact (hsound.inGrid ha).bit_lt
    · rfl
    · exact hm.trans hc.symm
  refine ⟨?_, ?_, ?_⟩
  · intro address ha
    have hgrid := hsound.inGrid ha
    have hholds : Bytes.Holds current.size address search.snapshot.width := hc.symm ▸ hgrid.holds
    obtain ⟨value, hvalue⟩ := Bytes.exists_readItem search.snapshot.bigEndian hholds
    refine ⟨value, hvalue, ?_⟩
    rw [Snapshot.itemIn, hpinned.memory.readItem (hm.trans hc.symm) _ hgrid.bit_lt]
    · exact hvalue
    · intro position ht
      exact ⟨address, ha, ht⟩
  · intro position hn
    apply hpinned.memory.kept
    rintro ⟨address, ha, ht⟩
    exact hn address ha ht
  · rw [hpinned.tally, hcount]
    simp only [FrameTally.add, Nat.zero_add]

/-- Three items of two bits, in two bytes whose other bits are all set, get their
values back from cheats that are switched on last to first. -/
theorem pass_pins_three_matches :
    let content : Bytes := #[0xB4, 0x1F]
    let search : Search := Search.narrowed
      ⟨⟨.systemRam, .bits2, false, content⟩, .all 2 .bits2⟩ content (.exact 3)
    let list : CheatList := { entries := [Cheat.blank 0 .core] }
    ∃ added enabled, list.addMatches search #[0x90, 0x06] = (.ok 3, added) ∧
      added.toggleAll [3, 2, 1] = (.ok (), enabled) ∧
      (∀ address ∈ search.candidates.toList, ∃ value,
        search.snapshot.itemIn #[0x90, 0x06] address = some value ∧
        search.snapshot.itemIn (applyFrame enabled.entries #[0xFF, 0xFF] 0).2.memory address =
          some value) ∧
      (applyFrame enabled.entries #[0xFF, 0xFF] 0).2.tally = { evaluated := 3, writes := 3 } := by
  intro content search list
  have hbegin : Search.begin (.single .systemRam content) .systemRam .bits2 false =
      .ok ⟨⟨.systemRam, .bits2, false, content⟩, .all 2 .bits2⟩ := rfl
  have hstep : Search.step ⟨⟨.systemRam, .bits2, false, content⟩, .all 2 .bits2⟩
      (.single .systemRam content) (.exact 3) = (.ok search.count, search) :=
    Search.step_eq_ok _ rfl rfl
  have hr : search.Reachable := (Search.Reachable.begin hbegin).of_step hstep
  have hcount : search.count = 3 := by decide
  have hfits : ¬search.count + list.size > promotionLimit := by decide
  have hadd : ∃ added, list.addMatches search #[0x90, 0x06] = (.ok 3, added) := by
    rw [addMatches, if_neg hfits, hcount]
    exact ⟨_, rfl⟩
  obtain ⟨added, hadd⟩ := hadd
  have hcurrent : (#[0x90, 0x06] : Bytes).size = search.snapshot.size := rfl
  have hmemory : (#[0xFF, 0xFF] : Bytes).size = search.snapshot.size := rfl
  have horder : [3, 2, 1].Perm (List.range' list.size 3) := by decide
  obtain ⟨_, enabled, henabled, hvalues, _, htally⟩ :=
    pass_pins_matches hr (by decide) hcurrent hmemory (by decide) hadd horder 0
  exact ⟨added, enabled, hadd, henabled, hvalues, htally⟩

end CheatList

end GameTrainer
