import GameTrainer.ItemCodec

/-!
# Regions of a core's memory

An emulation core exposes up to four regions of memory. A region may be absent,
and it may change or be replaced between two looks at it, so nothing here keeps
hold of one. Main statements: setting a region is seen in that region and in no
other.
-/

namespace GameTrainer

/-- A region of memory that a core can expose. -/
inductive Region where
  | saveRam | rtc | systemRam | videoRam
  deriving DecidableEq, Repr, Inhabited

namespace Region

/-- Every region, at the place of its code. -/
def all : List Region := [saveRam, rtc, systemRam, videoRam]

/-- The region with a numeric code. -/
def ofCode? (code : Nat) : Option Region := all[code]?

/-- The name of a region in settings and messages. -/
def name : Region → String
  | saveRam => "SaveRam" | rtc => "Rtc" | systemRam => "SystemRam" | videoRam => "VideoRam"

end Region

/-- The memory of a core: the content of each exposed region. -/
structure CoreMemory where
  /-- Battery-backed memory of a cartridge. -/
  saveRam : Option Bytes := none
  /-- Memory of the real-time clock. -/
  rtc : Option Bytes := none
  /-- Main memory. -/
  systemRam : Option Bytes := none
  /-- Memory of the video unit. -/
  videoRam : Option Bytes := none
  deriving Inhabited

namespace CoreMemory

/-- The content of a region, if the core exposes it. -/
def get? (memory : CoreMemory) : Region → Option Bytes
  | .saveRam => memory.saveRam
  | .rtc => memory.rtc
  | .systemRam => memory.systemRam
  | .videoRam => memory.videoRam

/-- The memory with a region exposed with a new content. -/
def set (memory : CoreMemory) (region : Region) (content : Bytes) : CoreMemory :=
  match region with
  | .saveRam => { memory with saveRam := some content }
  | .rtc => { memory with rtc := some content }
  | .systemRam => { memory with systemRam := some content }
  | .videoRam => { memory with videoRam := some content }

@[simp] theorem get?_set_self (memory : CoreMemory) (region : Region) (content : Bytes) :
    (memory.set region content).get? region = some content := by
  cases region <;> rfl

theorem get?_set_of_ne (memory : CoreMemory) {region other : Region} (content : Bytes)
    (h : other ≠ region) : (memory.set region content).get? other = memory.get? other := by
  cases region <;> cases other <;> first | rfl | exact absurd rfl h

/-- A memory that exposes one region. -/
def single (region : Region) (content : Bytes) : CoreMemory :=
  CoreMemory.set {} region content

@[simp] theorem get?_single (region : Region) (content : Bytes) :
    (single region content).get? region = some content :=
  get?_set_self ..

/-- Main memory, empty when the core exposes none. -/
def ram (memory : CoreMemory) : Bytes :=
  memory.systemRam.getD #[]

/-- Put bytes over those of an exposed region; a region that is not exposed
stays absent. -/
def poke (memory : CoreMemory) (region : Region) (offset : Nat) (bytes : List UInt8) :
    CoreMemory :=
  match memory.get? region with
  | some content => memory.set region (content.overwrite offset bytes)
  | none => memory

end CoreMemory

end GameTrainer
