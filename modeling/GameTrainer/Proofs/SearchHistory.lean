import GameTrainer.Trainer
import GameTrainer.Proofs.SearchSoundness

/-!
# The history of a search

What a search has found is decided by its history: the content of the region
when it began, and for each step that went through the query and the content of
the region then. Steps that fail and changes of the settings leave no trace. Main
statement: whatever happens to a trainer between the steps, the candidates are
the items of the region that passed every step of the history, each step
comparing the value of then with the value at the step before.
-/

namespace GameTrainer

/-- A step of a search that went through. -/
structure Narrowing where
  /-- The query of the step. -/
  query : Query
  /-- The bytes that the region had at the step. -/
  content : Bytes

/-- An item has a value in the bytes of a step and in those before it, and these
pass the query of the step. -/
def Narrowing.Passes (width : Width) (bigEndian : Bool) (before : Bytes) (step : Narrowing)
    (address : ItemAddress) : Prop :=
  ∃ now old, step.content.readItem address width bigEndian = some now ∧
    before.readItem address width bigEndian = some old ∧ step.query.holds now old = true

/-- The bytes that the step after a history compares with: those of its last step,
or those before it when it is empty. -/
def baseline : (before : Bytes) → List Narrowing → Bytes
  | before, [] => before
  | _, step :: later => baseline step.content later

/-- An item passes every step of a history, the first of which compares with the
bytes at the beginning and each later one with the bytes of the step before. -/
def Survives (width : Width) (bigEndian : Bool) (address : ItemAddress) :
    (before : Bytes) → List Narrowing → Prop
  | _, [] => True
  | before, step :: later =>
    step.Passes width bigEndian before address ∧
      Survives width bigEndian address step.content later

theorem baseline_concat (before : Bytes) (history : List Narrowing) (step : Narrowing) :
    baseline before (history ++ [step]) = step.content := by
  induction history generalizing before with
  | nil => rfl
  | cons first later ih => exact ih first.content

/-- A history with one more step is survived when its old part is, and the item
passes the new step against the bytes that the old part ends with. -/
theorem survives_concat {width : Width} {bigEndian : Bool} {address : ItemAddress}
    (before : Bytes) (history : List Narrowing) (step : Narrowing) :
    Survives width bigEndian address before (history ++ [step]) ↔
      Survives width bigEndian address before history ∧
        step.Passes width bigEndian (baseline before history) address := by
  induction history generalizing before with
  | nil => simp [Survives, baseline]
  | cons first later ih => rw [List.cons_append, Survives, ih, Survives, baseline, and_assoc]

/-- The step that a query makes on a core's memory, if the region is exposed there
with bytes of its old size. -/
def narrowing? (region : Region) (size : Nat) (memory : CoreMemory) (query : Query) :
    Option Narrowing :=
  ((memory.get? region).filter fun content => content.size == size).map fun content =>
    ⟨query, content⟩

theorem narrowing?_eq_none {region : Region} {size : Nat} {memory : CoreMemory} {query : Query} :
    narrowing? region size memory query = none ↔
      ∀ content, memory.get? region = some content → content.size ≠ size := by
  simp only [narrowing?, Option.map_eq_none_iff, Option.filter_eq_none_iff, beq_iff_eq, ne_eq]

namespace Snapshot

/-- A snapshot accepts what passes the step against its bytes. -/
theorem accepts_iff {snapshot : Snapshot} {current : Bytes} {query : Query}
    {address : ItemAddress} :
    snapshot.accepts current query address = true ↔
      Narrowing.Passes snapshot.width snapshot.bigEndian snapshot.previous ⟨query, current⟩
        address := by
  rw [accepts, Narrowing.Passes, itemIn, itemIn]
  constructor
  · intro h
    split at h
    · rename_i now old hnow hold
      exact ⟨now, old, hnow, hold, h⟩
    · cases h
  · rintro ⟨now, old, hnow, hold, h⟩
    rw [hnow, hold]
    exact h

end Snapshot

namespace Search

/-- A search holds what its history decides: its snapshot is the content at the
last step, and its candidates are the items that survive, which its walk meets
once each in rising order and its kept number counts. -/
structure Follows (search : Search) (region : Region) (width : Width) (bigEndian : Bool)
    (initial : Bytes) (history : List Narrowing) : Prop where
  /-- The candidates are rightly counted items of the region. -/
  sound : search.Sound
  /-- The region, the width and the byte order are those of the beginning, and
  the bytes compared with are those of the last step. -/
  snapshot : search.snapshot = ⟨region, width, bigEndian, baseline initial history⟩
  /-- The region keeps its size. -/
  size : search.snapshot.size = initial.size
  /-- The candidates are the items of the region that survive. -/
  mem_iff : ∀ address, address ∈ search.candidates.toList ↔
    address.InGrid width initial.size ∧ Survives width bigEndian address initial history
  /-- They are listed in strictly rising order. -/
  rising : search.candidates.toList.Pairwise ItemAddress.Before
  /-- The walk over the candidates meets just these, numbered from zero. -/
  walks : search.candidates.Walks {} search.candidates.toList.zipIdx
  /-- The reported number is their number. -/
  count : search.count = search.candidates.toList.length

variable {region : Region} {width : Width} {bigEndian : Bool} {initial : Bytes}
  {history : List Narrowing}

/-- In a sound search only the snapshot and the candidates are left to check. -/
theorem Sound.follows {search : Search} (h : search.Sound)
    (hs : search.snapshot = ⟨region, width, bigEndian, baseline initial history⟩)
    (hsize : search.snapshot.size = initial.size)
    (hm : ∀ address, address ∈ search.candidates.toList ↔
      address.InGrid width initial.size ∧ Survives width bigEndian address initial history) :
    search.Follows region width bigEndian initial history :=
  ⟨h, hs, hsize, hm, Candidates.pairwise_toList h.covers, search.candidates.walks_toList,
    h.counted⟩

/-- A search begins with every item of the region and an empty history. -/
theorem follows_begin {memory : CoreMemory} (width : Width) (bigEndian : Bool)
    (hget : memory.get? region = some initial) (hne : initial.size ≠ 0) :
    ∃ first, begin memory region width bigEndian = .ok first ∧
      first.Follows region width bigEndian initial [] := by
  have hbegin := begin_eq_ok width bigEndian hget hne
  refine ⟨_, hbegin, (sound_begin hbegin).follows rfl rfl ?_⟩
  intro address
  rw [Candidates.toList_all, ItemAddress.mem_grid]
  simp [Survives]

/-- A step on bytes of the region's size adds itself to the history. -/
theorem Follows.narrowed {search : Search} {current : Bytes}
    (h : search.Follows region width bigEndian initial history) (query : Query)
    (hsize : current.size = initial.size) :
    (search.narrowed current query).Follows region width bigEndian initial
      (history ++ [⟨query, current⟩]) := by
  have hold : current.size = search.snapshot.size := hsize.trans h.size.symm
  refine (h.sound.narrowed query hold).follows ?_ hsize ?_
  · rw [baseline_concat, Search.narrowed, h.snapshot]
  · intro address
    have hkeeps := search.candidates.keeps_filter (search.snapshot.accepts current query)
    rw [Search.narrowed, hkeeps.toList, List.mem_filter, h.mem_iff, Snapshot.accepts_iff,
      h.snapshot, survives_concat, and_assoc]

/-- What a step does to a search that follows its history: it goes through when the
region is exposed in its old size, adds itself to the history and reports how many
items are left; else it fails and leaves the search. -/
theorem Follows.step {search : Search} (h : search.Follows region width bigEndian initial history)
    (memory : CoreMemory) (query : Query) :
    match narrowing? region initial.size memory query with
    | some step => ∃ next, search.step memory query = (.ok next.count, next) ∧
        next.Follows region width bigEndian initial (history ++ [step])
    | none => ∃ failure, search.step memory query = (.error failure, search) := by
  have hregion : search.snapshot.region = region := by rw [h.snapshot]
  cases hnarrow : narrowing? region initial.size memory query with
  | some step =>
    obtain ⟨content, hcontent, rfl⟩ := Option.map_eq_some_iff.1 hnarrow
    obtain ⟨hget, hsize⟩ := Option.filter_eq_some_iff.1 hcontent
    have hsize : content.size = initial.size := eq_of_beq hsize
    refine ⟨_, step_eq_ok query (hregion ▸ hget) (hsize.trans h.size.symm), ?_⟩
    exact h.narrowed query hsize
  | none =>
    refine step_eq_error query ?_
    rw [hregion, h.size]
    exact narrowing?_eq_none.1 hnarrow

end Search

/-! ## Searches of a trainer -/

/-- What can happen to a trainer whose search is under way. -/
inductive SearchEvent where
  /-- A step with a query on what the core's memory is then. -/
  | step (memory : CoreMemory) (query : Query)
  /-- The user chooses other settings. -/
  | configure (settings : Settings)

/-- The step that an event makes, if it makes one that goes through. -/
def SearchEvent.narrowing? (region : Region) (size : Nat) : SearchEvent → Option Narrowing
  | step memory query => GameTrainer.narrowing? region size memory query
  | configure _ => none

/-- The steps among events that go through, in order. -/
def historyOf (region : Region) (size : Nat) (events : List SearchEvent) : List Narrowing :=
  events.filterMap (SearchEvent.narrowing? region size)

theorem historyOf_cons (region : Region) (size : Nat) (event : SearchEvent)
    (later : List SearchEvent) :
    historyOf region size (event :: later) =
      (event.narrowing? region size).toList ++ historyOf region size later := by
  rw [historyOf, List.filterMap_cons]
  cases event.narrowing? region size <;> rfl

/-- The search after an event. Settings do not reach it. -/
def Search.after (search : Search) : SearchEvent → Search
  | .step memory query => (search.step memory query).2
  | .configure _ => search

/-- The trainer after an event. -/
def Trainer.after (trainer : Trainer) : SearchEvent → Trainer
  | .step memory query => (trainer.searchStep memory query).trainer
  | .configure settings => { trainer with settings := settings }

namespace Search

variable {region : Region} {width : Width} {bigEndian : Bool} {initial : Bytes}
  {history : List Narrowing}

/-- One event adds to the history of a search the step that it makes. -/
theorem Follows.after {search : Search}
    (h : search.Follows region width bigEndian initial history) (event : SearchEvent) :
    (search.after event).Follows region width bigEndian initial
      (history ++ (event.narrowing? region initial.size).toList) := by
  cases event with
  | step memory query =>
    have hstep := h.step memory query
    rw [Search.after, SearchEvent.narrowing?]
    cases hnarrow : GameTrainer.narrowing? region initial.size memory query with
    | some step =>
      rw [hnarrow] at hstep
      obtain ⟨next, hok, hnext⟩ := hstep
      rw [hok]
      exact hnext
    | none =>
      rw [hnarrow] at hstep
      obtain ⟨failure, herror⟩ := hstep
      rw [herror, Option.toList_none, List.append_nil]
      exact h
  | configure settings =>
    rw [SearchEvent.narrowing?, Option.toList_none, List.append_nil]
    exact h

/-- A run of events adds its steps to the history of a search. -/
theorem Follows.afterAll {search : Search}
    (h : search.Follows region width bigEndian initial history) (events : List SearchEvent) :
    (events.foldl Search.after search).Follows region width bigEndian initial
      (history ++ historyOf region initial.size events) := by
  induction events generalizing search history with
  | nil =>
    rw [historyOf, List.filterMap_nil, List.append_nil]
    exact h
  | cons event later ih =>
    have hrest := ih (h.after event)
    rw [List.append_assoc, ← historyOf_cons] at hrest
    exact hrest

end Search

namespace Trainer

/-- A step of a trainer is the step of its search: the trainer gives its number of matches or its
failure, and keeps the search that it leaves. -/
theorem searchStep_spec {trainer : Trainer} {search : Search} (h : trainer.search = some search)
    (memory : CoreMemory) (query : Query) :
    (trainer.searchStep memory query).result = (search.step memory query).1 ∧
      (trainer.searchStep memory query).trainer =
        { trainer with search := some (search.step memory query).2 } := by
  rw [searchStep, result_report, trainer_report, withSearch, h]
  exact ⟨rfl, rfl⟩

/-- With a search on a region that is exposed in its old size, a trainer adds the matches to its
list. -/
theorem addMatches_of_live {trainer : Trainer} {search : Search} {memory : CoreMemory}
    {current : Bytes} (hsearch : trainer.search = some search)
    (hlive : search.snapshot.live memory = .ok current) :
    let added := trainer.cheats.addMatches search current
    trainer.addMatches memory =
      report (added.1, { trainer with cheats := added.2 }) fun count =>
        [say ("Added " ++ toString count ++ " matches to the cheat list")] := by
  rw [addMatches, withLiveSearch, withSearch, hsearch]
  dsimp only
  rw [hlive]

/-- An event does to the search of a trainer what it does to the search alone. -/
theorem search_after {trainer : Trainer} {search : Search} (h : trainer.search = some search)
    (event : SearchEvent) : (trainer.after event).search = some (search.after event) := by
  cases event with
  | step memory query => rw [Trainer.after, (searchStep_spec h memory query).2, Search.after]
  | configure settings => exact h

theorem search_afterAll {trainer : Trainer} {search : Search} (h : trainer.search = some search)
    (events : List SearchEvent) :
    (events.foldl Trainer.after trainer).search = some (events.foldl Search.after search) := by
  induction events generalizing trainer search with
  | nil => exact h
  | cons event later ih => exact ih (search_after h event)

/-- A search begins with all items of the region of the settings, and from then on
whatever happens to the trainer, its candidates are the items that survived every
step that went through. The steps alone, without the trainer, lead to the same
search. The next step goes through exactly when the region is exposed in its old
size; then it reports how many items are left, and else it fails and leaves the
whole trainer as it was. -/
theorem search_follows_history (trainer : Trainer) {memory : CoreMemory} {initial : Bytes}
    (hget : memory.get? trainer.settings.region = some initial) (hne : initial.size ≠ 0)
    (events : List SearchEvent) :
    let settings := trainer.settings
    let history := historyOf settings.region initial.size events
    let later := events.foldl Trainer.after (trainer.beginSearch memory).trainer
    ∃ first search,
      Search.begin memory settings.region settings.searchWidth settings.searchBigEndian =
        .ok first ∧
      (trainer.beginSearch memory).result = .ok first.count ∧
      first.count = settings.searchWidth.itemCount initial.size ∧
      search = events.foldl Search.after first ∧
      later.search = some search ∧
      search.Follows settings.region settings.searchWidth settings.searchBigEndian initial
        history ∧
      ∀ now query,
        match narrowing? settings.region initial.size now query with
        | some step => ∃ next,
            search.step now query = (.ok next.count, next) ∧
            next.Follows settings.region settings.searchWidth settings.searchBigEndian initial
              (history ++ [step]) ∧
            (later.searchStep now query).result = .ok next.count ∧
            (later.searchStep now query).trainer = { later with search := some next }
        | none => ∃ failure,
            search.step now query = (.error failure, search) ∧
            (later.searchStep now query).result = .error failure ∧
            (later.searchStep now query).trainer = later := by
  intro settings history later
  obtain ⟨first, hfirst, hempty⟩ := Search.follows_begin settings.searchWidth
    settings.searchBigEndian hget hne
  have hbegin : trainer.beginSearch memory = ⟨.ok first.count,
      { trainer with search := some first },
      [say ("Cheat search started: " ++ toString first.count ++ " matches")]⟩ := by
    rw [beginSearch, hfirst]
    rfl
  have hcount : first.count = settings.searchWidth.itemCount initial.size := by
    have hok := Search.begin_eq_ok settings.searchWidth settings.searchBigEndian hget hne
    rw [hfirst] at hok
    cases hok
    rfl
  have hsearch : later.search = some (events.foldl Search.after first) := by
    apply search_afterAll
    rw [hbegin]
  have hfollows := hempty.afterAll events
  rw [List.nil_append] at hfollows
  refine ⟨first, _, hfirst, by rw [hbegin], hcount, rfl, hsearch, hfollows, ?_⟩
  intro now query
  have hstep := hfollows.step now query
  obtain ⟨hresult, hkept⟩ := searchStep_spec hsearch now query
  cases hnarrow : narrowing? settings.region initial.size now query with
  | some step =>
    rw [hnarrow] at hstep
    obtain ⟨next, hnext, hthen⟩ := hstep
    rw [hnext] at hresult hkept
    exact ⟨next, hnext, hthen, hresult, hkept⟩
  | none =>
    rw [hnarrow] at hstep
    obtain ⟨failure, hfail⟩ := hstep
    rw [hfail] at hresult hkept
    refine ⟨failure, hfail, hresult, hkept.trans ?_⟩
    rw [← hsearch]

/-- Two steps go through and one does not, while the settings change: what is left
of three bytes is decided by the two. -/
theorem search_follows_history_of_three_bytes :
    let memory := CoreMemory.single .systemRam #[5, 7, 5]
    let events : List SearchEvent :=
      [.step (.single .systemRam #[7, 7, 5]) (.exact 7), .configure { region := .videoRam },
        .step {} .less, .step (.single .systemRam #[8, 6, 9]) .greater]
    memory.get? ({} : Settings).region = some #[5, 7, 5] ∧
    ∃ search, (events.foldl Trainer.after (({} : Trainer).beginSearch memory).trainer).search =
        some search ∧
      search.Follows .systemRam .bits8 false #[5, 7, 5]
        [⟨.exact 7, #[7, 7, 5]⟩, ⟨.greater, #[8, 6, 9]⟩] := by
  intro memory events
  have hget : memory.get? ({} : Settings).region = some #[5, 7, 5] := rfl
  refine ⟨hget, ?_⟩
  obtain ⟨_, search, _, _, _, _, hsearch, hfollows, _⟩ :=
    search_follows_history {} hget (by decide) events
  exact ⟨search, hsearch, hfollows⟩

end Trainer

end GameTrainer
