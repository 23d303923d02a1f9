import GameTrainer.SearchCandidates
import GameTrainer.SearchQuery
import GameTrainer.SearchSnapshot

/-!
# Searches

A search begins with every item of a region as a candidate. Each step keeps the
candidates that pass a query, and then takes the bytes of now as its snapshot,
so that the next step compares with this one. An operation on a search gives the
search that it leaves beside its result, also when it fails.
-/

namespace GameTrainer

/-- An item has a value now and in the snapshot, and these pass a query. -/
def Snapshot.accepts (snapshot : Snapshot) (current : Bytes) (query : Query)
    (address : ItemAddress) : Bool :=
  match snapshot.itemIn current address, snapshot.itemIn snapshot.previous address with
  | some now, some before => query.holds now before
  | _, _ => false

/-- Keep the candidates that the snapshot accepts, and take the bytes of now as the new snapshot.
Bytes of another size than the snapshot's are refused first. Gives the number of candidates left. -/
def Candidates.narrow (set : Candidates) (snapshot : Snapshot) (current : Bytes) (query : Query) :
    Outcome (Snapshot × Candidates) Nat :=
  if current.size ≠ snapshot.size then
    (.error (.regionSizeChanged snapshot.size current.size), snapshot, set)
  else
    let left := set.filter (snapshot.accepts current query)
    let (advanced, next) := snapshot.advance current
    (advanced.map fun () => left.count, next, left)

/-- A search under way. -/
structure Search where
  /-- The region at the previous step. -/
  snapshot : Snapshot
  /-- The items that passed every step. -/
  candidates : Candidates
  deriving DecidableEq, Repr

/-- One candidate as it is shown to a user. -/
structure MatchView where
  /-- The place of the candidate among all of them, in the order of addresses. -/
  index : Nat
  /-- Offset of the item's first byte. -/
  address : UInt32
  /-- The bits of that byte that belong to the item. -/
  bitMask : UInt32
  /-- The value of the item at the previous step. -/
  previous : UInt32
  /-- The value of the item now. -/
  current : UInt32
  deriving DecidableEq, Repr

namespace Search

/-- Copy a region and take every item of it as a candidate. -/
def begin (memory : CoreMemory) (region : Region) (width : Width) (bigEndian : Bool) :
    Except Failure Search :=
  (Snapshot.take memory region width bigEndian).map fun snapshot =>
    ⟨snapshot, Candidates.all snapshot.size width⟩

/-- The number of candidates left. -/
def count (search : Search) : Nat := search.candidates.count

/-- Narrow the candidates by a query on the bytes that the region has now. Gives the number of
candidates left. -/
def step (search : Search) (memory : CoreMemory) (query : Query) : Outcome Search Nat :=
  match search.snapshot.live memory with
  | .ok current =>
    let (result, snapshot, candidates) := search.candidates.narrow search.snapshot current query
    (result, ⟨snapshot, candidates⟩)
  | .error failure => (.error failure, search)

/-- A candidate at an address, with its values at the previous step and now. -/
def viewAt (search : Search) (current : Bytes) (index : Nat) (address : ItemAddress) :
    MatchView where
  index := index
  address := UInt32.ofNat address.byte
  bitMask := address.bitMask search.snapshot.width
  previous := (search.snapshot.itemIn search.snapshot.previous address).getD 0
  current := (search.snapshot.itemIn current address).getD 0

/-- All candidates, in the order of their addresses. -/
def views (search : Search) (current : Bytes) : List MatchView :=
  search.candidates.toList.mapIdx (search.viewAt current)

/-- The address of the candidate with an index. -/
def locate (search : Search) (index : Nat) : Except Failure ItemAddress :=
  match search.candidates.nth? index with
  | some address => .ok address
  | none => .error (.matchIndexOutOfRange index search.count)

/-- The candidate with an index. -/
def view (search : Search) (current : Bytes) (index : Nat) : Except Failure MatchView :=
  (search.locate index).map (search.viewAt current index)

/-- Rule the candidate with an index out, and show it. -/
def discard (search : Search) (current : Bytes) (index : Nat) : Outcome Search MatchView :=
  match search.locate index with
  | .ok address =>
    let bit := if search.snapshot.width.isSubByte then some address.bit else none
    (.ok (search.viewAt current index address),
      { search with candidates := search.candidates.remove address.byte bit })
  | .error failure => (.error failure, search)

end Search

end GameTrainer
