import GameTrainer.Failure

/-!
# Snapshots

A search compares the memory of now with a copy taken at its previous step. The
copy keeps the size that the region had when the search began, and bytes of any
other size are refused.
-/

namespace GameTrainer

/-- A copy of one region, and the way its bytes are read as items. -/
structure Snapshot where
  /-- The region that was copied. -/
  region : Region
  /-- The width of the items. -/
  width : Width
  /-- Items of several bytes have the most significant byte first. -/
  bigEndian : Bool
  /-- The bytes of the region at the previous step. -/
  previous : Bytes
  deriving DecidableEq, Repr

namespace Snapshot

/-- Copy a region that the core exposes and that is not empty. -/
def take (memory : CoreMemory) (region : Region) (width : Width) (bigEndian : Bool) :
    Except Failure Snapshot :=
  match memory.get? region with
  | none => .error (.memoryUnavailable (.absent region))
  | some content =>
    if content.isEmpty then .error (.memoryUnavailable (.empty region))
    else .ok ⟨region, width, bigEndian, content⟩

/-- The size of the region, in bytes. -/
def size (snapshot : Snapshot) : Nat := snapshot.previous.size

/-- Refuse bytes of another size than the region's. -/
def checkSize (snapshot : Snapshot) (current : Bytes) : Except Failure Unit :=
  if current.size = snapshot.size then .ok ()
  else .error (.regionSizeChanged snapshot.size current.size)

/-- The bytes that the region has now. -/
def live (snapshot : Snapshot) (memory : CoreMemory) : Except Failure Bytes :=
  match memory.get? snapshot.region with
  | none => .error (.memoryUnavailable (.lost snapshot.region))
  | some current => (snapshot.checkSize current).map fun _ => current

/-- Take the bytes of now as what the next step compares with. -/
def advance (snapshot : Snapshot) (current : Bytes) : Outcome Snapshot Unit :=
  match snapshot.checkSize current with
  | .ok () => (.ok (), { snapshot with previous := current })
  | .error failure => (.error failure, snapshot)

/-- The value of an item in some bytes, read the way of the snapshot. -/
def itemIn (snapshot : Snapshot) (content : Bytes) (address : ItemAddress) : Option UInt32 :=
  content.readItem address snapshot.width snapshot.bigEndian

end Snapshot

end GameTrainer
