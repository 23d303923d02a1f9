import GameTrainer.SearchSession
import GameTrainer.Proofs.CandidateRuns

/-!
# Sound searches

In a search that began on a region, the candidates are items of that region, at
the width of the snapshot, and are rightly counted. Main statements: what a step
does is decided by whether the region is exposed in its old size; a step that
goes through keeps the candidates that pass its query and takes the bytes of now
as its snapshot, and one that fails leaves both; and every search that can be
reached by steps and by ruling matches out is sound.
-/

namespace GameTrainer

namespace Snapshot

/-- The region is exposed with bytes of its old size. -/
theorem live_eq_ok {snapshot : Snapshot} {memory : CoreMemory} {current : Bytes}
    (hget : memory.get? snapshot.region = some current) (hsize : current.size = snapshot.size) :
    snapshot.live memory = .ok current := by
  rw [live, hget]
  dsimp only
  rw [checkSize, if_pos hsize]
  rfl

/-- A region that is not exposed with bytes of its old size is refused. -/
theorem live_eq_error {snapshot : Snapshot} {memory : CoreMemory}
    (h : ∀ current, memory.get? snapshot.region = some current → current.size ≠ snapshot.size) :
    ∃ failure, snapshot.live memory = .error failure := by
  cases hget : memory.get? snapshot.region with
  | none =>
    rw [live, hget]
    exact ⟨_, rfl⟩
  | some current =>
    rw [live, hget]
    dsimp only
    rw [checkSize, if_neg (h current hget)]
    exact ⟨_, rfl⟩

theorem advance_eq_ok {snapshot : Snapshot} {current : Bytes}
    (hsize : current.size = snapshot.size) :
    snapshot.advance current = (.ok (), { snapshot with previous := current }) := by
  rw [advance, checkSize, if_pos hsize]

end Snapshot

namespace Candidates

/-- Bytes of the snapshot's size narrow any set to the candidates that the snapshot accepts. -/
theorem narrow_eq_ok (set : Candidates) {snapshot : Snapshot} {current : Bytes} (query : Query)
    (hsize : current.size = snapshot.size) :
    set.narrow snapshot current query =
      (.ok (set.filter (snapshot.accepts current query)).count,
        { snapshot with previous := current }, set.filter (snapshot.accepts current query)) := by
  rw [narrow, if_neg fun hne => hne hsize, Snapshot.advance_eq_ok hsize]
  rfl

/-- Bytes of another size are refused before the set is cut or the snapshot is taken. -/
theorem narrow_eq_error (set : Candidates) {snapshot : Snapshot} {current : Bytes} (query : Query)
    (hsize : current.size ≠ snapshot.size) :
    set.narrow snapshot current query =
      (.error (.regionSizeChanged snapshot.size current.size), snapshot, set) := by
  rw [narrow, if_pos hsize]

end Candidates

namespace Search

/-- The candidates are rightly counted items of the snapshot's region. -/
structure Sound (search : Search) : Prop where
  /-- Candidates and snapshot are read at one width. -/
  width : search.candidates.width = search.snapshot.width
  /-- The masks cover the region. -/
  covers : search.candidates.Covers search.snapshot.size
  /-- The kept number is the number of candidates. -/
  counted : search.candidates.Counted

/-- The search after a step on bytes of the region's size. -/
def narrowed (search : Search) (current : Bytes) (query : Query) : Search where
  snapshot := { search.snapshot with previous := current }
  candidates := search.candidates.filter (search.snapshot.accepts current query)

/-- A step goes through when the region is exposed with bytes of its old size. -/
theorem step_eq_ok {search : Search} {memory : CoreMemory} {current : Bytes} (query : Query)
    (hget : memory.get? search.snapshot.region = some current)
    (hsize : current.size = search.snapshot.size) :
    search.step memory query =
      (.ok (search.narrowed current query).count, search.narrowed current query) := by
  rw [step, Snapshot.live_eq_ok hget hsize]
  dsimp only
  rw [Candidates.narrow_eq_ok _ query hsize]
  rfl

/-- Any other step fails, and leaves the search. -/
theorem step_eq_error {search : Search} {memory : CoreMemory} (query : Query)
    (h : ∀ current, memory.get? search.snapshot.region = some current →
      current.size ≠ search.snapshot.size) :
    ∃ failure, search.step memory query = (.error failure, search) := by
  obtain ⟨failure, hlive⟩ := Snapshot.live_eq_error h
  rw [step, hlive]
  exact ⟨failure, rfl⟩

/-- A step is a narrowing on bytes of the region's size, or it fails and leaves the search. -/
theorem step_cases (search : Search) (memory : CoreMemory) (query : Query) :
    (∃ current, memory.get? search.snapshot.region = some current ∧
      current.size = search.snapshot.size ∧
      search.step memory query =
        (.ok (search.narrowed current query).count, search.narrowed current query)) ∨
    ∃ failure, search.step memory query = (.error failure, search) := by
  by_cases hlive : ∃ current, memory.get? search.snapshot.region = some current ∧
      current.size = search.snapshot.size
  · obtain ⟨current, hget, hsize⟩ := hlive
    exact Or.inl ⟨current, hget, hsize, step_eq_ok query hget hsize⟩
  · refine Or.inr (step_eq_error query ?_)
    exact fun current hget hsize => hlive ⟨current, hget, hsize⟩

/-- A search begins on a region that is exposed and not empty, with every item of
it as a candidate. -/
theorem begin_eq_ok {memory : CoreMemory} {region : Region} {content : Bytes} (width : Width)
    (bigEndian : Bool) (hget : memory.get? region = some content) (hne : content.size ≠ 0) :
    begin memory region width bigEndian =
      .ok ⟨⟨region, width, bigEndian, content⟩, Candidates.all content.size width⟩ := by
  have hempty : ¬content.isEmpty = true := by
    rw [Array.isEmpty_iff_size_eq_zero]
    exact hne
  rw [begin, Snapshot.take, hget]
  dsimp only
  rw [if_neg hempty]
  rfl

theorem sound_begin {memory : CoreMemory} {region : Region} {width : Width} {bigEndian : Bool}
    {search : Search} (h : begin memory region width bigEndian = .ok search) : search.Sound := by
  rw [begin, Snapshot.take] at h
  split at h
  · cases h
  · split at h
    · cases h
    · cases h
      exact ⟨rfl, Candidates.covers_all _ _, Candidates.counted_all _ _⟩

/-- The candidates of a sound search are items of its region. -/
theorem Sound.inGrid {search : Search} (h : search.Sound) {address : ItemAddress}
    (ha : address ∈ search.candidates.toList) :
    address.InGrid search.snapshot.width search.snapshot.size :=
  h.width ▸ ((Candidates.mem_toList h.covers).1 ha).1

/-- A set that keeps some of the candidates of a sound search makes a sound one,
when the snapshot keeps its width and its size. -/
theorem Sound.of_keeps {search next : Search} {passes : ItemAddress → Bool} (h : search.Sound)
    (hk : search.candidates.Keeps next.candidates passes)
    (hw : next.snapshot.width = search.snapshot.width)
    (hs : next.snapshot.size = search.snapshot.size) : next.Sound := by
  refine ⟨hk.width.trans (h.width.trans hw.symm), ?_, hk.counted h.counted⟩
  rw [hs]
  exact hk.covers h.covers

theorem Sound.narrowed {search : Search} {current : Bytes} (query : Query) (h : search.Sound)
    (hsize : current.size = search.snapshot.size) : (search.narrowed current query).Sound :=
  h.of_keeps (Candidates.keeps_filter _ _) rfl hsize

/-- Ruling a match out removes it from the candidates, or fails and leaves the search. -/
theorem discard_cases (search : Search) (current : Bytes) (index : Nat) :
    (∃ view byte bit, search.discard current index =
      (.ok view, { search with candidates := search.candidates.remove byte bit })) ∨
    ∃ failure, search.discard current index = (.error failure, search) := by
  rw [discard]
  cases search.locate index with
  | ok address => exact Or.inl ⟨_, _, _, rfl⟩
  | error failure => exact Or.inr ⟨failure, rfl⟩

/-- The searches that steps and rulings out lead to, also those that fail. -/
inductive Reachable : Search → Prop where
  | begin {memory : CoreMemory} {region : Region} {width : Width} {bigEndian : Bool}
      {search : Search} (h : begin memory region width bigEndian = .ok search) : Reachable search
  | step {search : Search} (before : Reachable search) (memory : CoreMemory) (query : Query) :
      Reachable (search.step memory query).2
  | discard {search : Search} (before : Reachable search) (current : Bytes) (index : Nat) :
      Reachable (search.discard current index).2

theorem Reachable.of_step {search next : Search} {memory : CoreMemory} {query : Query}
    {result : Except Failure Nat} (before : search.Reachable)
    (h : search.step memory query = (result, next)) : next.Reachable := by
  have hnext := before.step memory query
  rwa [h] at hnext

theorem Reachable.of_discard {search next : Search} {current : Bytes} {index : Nat}
    {result : Except Failure MatchView} (before : search.Reachable)
    (h : search.discard current index = (result, next)) : next.Reachable := by
  have hnext := before.discard current index
  rwa [h] at hnext

/-- Every search that can be reached is sound. -/
theorem Reachable.sound {search : Search} (h : search.Reachable) : search.Sound := by
  induction h with
  | begin h => exact sound_begin h
  | @step search _ memory query ih =>
    obtain ⟨current, _, hsize, hstep⟩ | ⟨failure, hstep⟩ := search.step_cases memory query
    · rw [hstep]
      exact ih.narrowed query hsize
    · rw [hstep]
      exact ih
  | @discard search _ current index ih =>
    obtain ⟨view, byte, bit, hdiscard⟩ | ⟨failure, hdiscard⟩ := search.discard_cases current index
    · rw [hdiscard]
      exact ih.of_keeps (Candidates.keeps_remove ih.covers byte bit) rfl rfl
    · rw [hdiscard]
      exact ih

end Search

end GameTrainer
