import GameTrainer.Proofs.ItemBits
import GameTrainer.Proofs.SearchHistory

/-!
# Narrowing any set

Narrowing takes a set of candidates and a snapshot that need not belong together: the set may be
of another width, or of a region of another size, than the snapshot. An item is then read at the
width of the snapshot wherever the set has it, so that two groups of bits in one byte may stand
for the same item, and an item may lie behind the end of the region or across it. Main statement:
bytes of another size than the snapshot's are refused before the set is cut, so that snapshot and
set are left as they were; and otherwise exactly those candidates are left whose items lie in the
bytes of now and in the snapshot and pass the query, the kept number counts them, and the bytes of
now are the next snapshot.
-/

namespace GameTrainer.Candidates

/-- An item that passes a step lies wholly in the bytes of now and in those before. -/
theorem holds_of_passes {width : Width} {bigEndian : Bool} {before : Bytes} {step : Narrowing}
    {address : ItemAddress} (h : step.Passes width bigEndian before address) :
    Bytes.Holds step.content.size address width ∧ Bytes.Holds before.size address width := by
  obtain ⟨_, _, hnow, hold, _⟩ := h
  exact ⟨Bytes.holds_of_readItem hnow, Bytes.holds_of_readItem hold⟩

/-- Whatever set was reached by eliminations from all items of some region, at some width, and
whatever the snapshot is: bytes of another size than the snapshot's are refused with both sizes,
and snapshot and set stay as they were. Bytes of its size become the next snapshot, and of the
candidates exactly those are left whose items, read the way of the snapshot, lie in these bytes and
in the snapshot and pass the query. They keep their order, the walk meets each of them once, and
the kept number, which is given, is theirs. -/
theorem narrow_keeps_passing_items (size : Nat) (width : Width) (steps : List Elimination)
    (snapshot : Snapshot) (current : Bytes) (query : Query) :
    let set := (all size width).eliminateAll steps
    (current.size ≠ snapshot.size →
      set.narrow snapshot current query =
        (.error (.regionSizeChanged snapshot.size current.size), snapshot, set)) ∧
    (current.size = snapshot.size → ∃ left,
      set.narrow snapshot current query =
        (.ok left.count, { snapshot with previous := current }, left) ∧
      left.width = width ∧
      (∀ address, address ∈ left.toList ↔ address ∈ set.toList ∧
        Bytes.Holds current.size address snapshot.width ∧
        Bytes.Holds snapshot.size address snapshot.width ∧
        Narrowing.Passes snapshot.width snapshot.bigEndian snapshot.previous ⟨query, current⟩
          address) ∧
      left.toList.Sublist set.toList ∧
      left.toList.Pairwise ItemAddress.Before ∧
      left.Walks {} left.toList.zipIdx ∧
      (∀ address, address ∈ left.toList ↔
        address.InGrid width size ∧ left.contains address = true) ∧
      left.count = left.toList.length) := by
  intro set
  have hreached := keeps_eliminateAll (covers_all size width) steps
  have hcovers : set.Covers size := hreached.covers (covers_all size width)
  have hcounted : set.Counted := hreached.counted (counted_all size width)
  constructor
  · exact narrow_eq_error set query
  · intro hsize
    have hkeeps := set.keeps_filter (snapshot.accepts current query)
    have hleft := hkeeps.covers hcovers
    have hwidth : (set.filter (snapshot.accepts current query)).width = width :=
      hkeeps.width.trans hreached.width
    refine ⟨_, narrow_eq_ok set query hsize, hwidth, ?_, ?_, pairwise_toList hleft,
      walks_toList _, ?_, hkeeps.counted hcounted⟩
    · intro address
      rw [hkeeps.toList, List.mem_filter, Snapshot.accepts_iff]
      refine and_congr_right fun _ => ⟨fun hpasses => ?_, fun hboth => hboth.2.2⟩
      obtain ⟨hnow, hbefore⟩ := holds_of_passes hpasses
      exact ⟨hnow, hbefore, hpasses⟩
    · rw [hkeeps.toList]
      exact List.filter_sublist
    · intro address
      rw [mem_toList hleft, hwidth]

/-- Nibbles of four bytes are read as items of two bytes, of which only those in the first two
bytes lie in a region of three; both nibbles of a byte stand for the same item. A single byte is
refused. -/
theorem narrow_keeps_passing_items_of_nibbles :
    let set := (all 4 .bits4).eliminateAll [.remove 1 (some 4)]
    let snapshot : Snapshot := ⟨.systemRam, .bits16, true, #[1, 2, 3]⟩
    let current : Bytes := #[1, 2, 4]
    current.size = snapshot.size ∧
      set.toList = [⟨0, 0⟩, ⟨0, 4⟩, ⟨1, 0⟩, ⟨2, 0⟩, ⟨2, 4⟩, ⟨3, 0⟩, ⟨3, 4⟩] ∧
      set.narrow snapshot #[1] .equal = (.error (.regionSizeChanged 3 1), snapshot, set) ∧
      ∃ left, set.narrow snapshot current .equal =
          (.ok 2, ⟨.systemRam, .bits16, true, current⟩, left) ∧
        left.toList = [⟨0, 0⟩, ⟨0, 4⟩] := by
  intro set snapshot current
  have hsize : current.size = snapshot.size := rfl
  have hother : (#[1] : Bytes).size ≠ snapshot.size := by decide
  have hset : set.toList = [⟨0, 0⟩, ⟨0, 4⟩, ⟨1, 0⟩, ⟨2, 0⟩, ⟨2, 4⟩, ⟨3, 0⟩, ⟨3, 4⟩] := by decide
  obtain ⟨_, hnarrow⟩ := narrow_keeps_passing_items 4 .bits4 [.remove 1 (some 4)] snapshot current
    .equal
  obtain ⟨hrefuse, _⟩ := narrow_keeps_passing_items 4 .bits4 [.remove 1 (some 4)] snapshot #[1]
    .equal
  obtain ⟨left, hleft, _, _, _, _, _, _, hcount⟩ := hnarrow hsize
  have hlist : left.toList = [⟨0, 0⟩, ⟨0, 4⟩] := by
    have hpassed : (set.narrow snapshot current .equal).2.2 = left := congrArg (·.2.2) hleft
    rw [narrow_eq_ok set .equal hsize] at hpassed
    rw [← hpassed]
    decide
  rw [hcount, hlist] at hleft
  exact ⟨hsize, hset, hrefuse hother, left, hleft, hlist⟩

end GameTrainer.Candidates
