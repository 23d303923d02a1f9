import GameTrainer.FileFault
import GameTrainer.MemoryRegion

/-!
# Failures

Every way in which an operation on memory, searches, cheat lists or cheat files
can fail, as a cause with its facts, and the one place where causes are worded.
-/

namespace GameTrainer

/-- Why a region of memory cannot be used. -/
inductive MemoryFault where
  /-- The core does not expose the region. -/
  | absent (region : Region)
  /-- The region holds no byte. -/
  | empty (region : Region)
  /-- The core exposed the region when the search began, and does no longer. -/
  | lost (region : Region)
  deriving DecidableEq, Repr

/-- Why a text is no search query; both keep the text as it was given. -/
inductive QueryFault where
  /-- A kind that compares with a value stands without one. -/
  | valueMissing (text : String)
  /-- No kind of query has this name. -/
  | unknownKind (text : String)
  deriving DecidableEq, Repr

/-- Why an operation failed. -/
inductive Failure where
  | memoryUnavailable (fault : MemoryFault)
  | regionSizeChanged (expected actual : Nat)
  | searchNotInitialized
  | tooManyMatches (found existing limit : Nat)
  | matchIndexOutOfRange (index count : Nat)
  | cheatIndexOutOfRange (index count : Nat)
  | invalidQuery (fault : QueryFault)
  /-- A cheat file without records. -/
  | noCheats
  | file (fault : FileFault)
  deriving DecidableEq, Repr

/-- The words for a region that cannot be used. -/
def MemoryFault.message : MemoryFault → String
  | absent region => "core exposes no " ++ region.name ++ " region"
  | empty region => region.name ++ " region is empty"
  | lost region => "core no longer exposes " ++ region.name

/-- The words for a text that is no query. -/
def QueryFault.message : QueryFault → String
  | valueMissing text => "'" ++ text ++ "' needs a numeric value"
  | unknownKind text => "unknown search kind '" ++ text ++ "'"

namespace Failure

/-- The words that tell a user why an operation failed. -/
def message : Failure → String
  | memoryUnavailable fault => "Core memory unavailable: " ++ fault.message
  | regionSizeChanged expected actual =>
    "Core memory region changed size: expected " ++ toString expected ++ " bytes, got " ++
      toString actual
  | searchNotInitialized => "Search not initialized"
  | tooManyMatches found existing limit =>
    "Too many matches to add: " ++ toString found ++ " matches + " ++ toString existing ++
      " cheats exceeds " ++ toString limit
  | matchIndexOutOfRange index count =>
    "Match index " ++ toString index ++ " out of range (" ++ toString count ++ " matches)"
  | cheatIndexOutOfRange index count =>
    "Cheat index " ++ toString index ++ " out of range (" ++ toString count ++ " cheats)"
  | invalidQuery fault => "Invalid search query: " ++ fault.message
  | noCheats => "Cheat file error: file contains no cheats"
  | file fault => "IO error: " ++ fault.message

/-- The deeper cause that a report names below the failure itself. -/
def cause? : Failure → Option String
  | file fault => some fault.message
  | _ => none

end Failure

/-! ## Outcomes -/

/-- What an operation on a state leads to: what it gives, or why it failed, and the state that it
leaves. An operation that fails may have done a part of its work before. -/
abbrev Outcome (State α : Type) : Type := Except Failure α × State

/-- What is made of an outcome is made of what it gave. -/
theorem exists_of_map_eq_ok {ε α β : Type} {outcome : Except ε α} {make : α → β} {made : β}
    (h : outcome.map make = .ok made) : ∃ given, outcome = .ok given ∧ make given = made := by
  cases outcome with
  | ok given =>
    cases h
    exact ⟨given, rfl, rfl⟩
  | error cause => cases h

/-- What goes on from an outcome goes on from what it gave. -/
theorem exists_of_bind_eq_ok {ε α β : Type} {outcome : Except ε α} {next : α → Except ε β}
    {made : β} (h : outcome.bind next = .ok made) :
    ∃ given, outcome = .ok given ∧ next given = .ok made := by
  cases outcome with
  | ok given => exact ⟨given, rfl, h⟩
  | error cause => cases h

theorem ok_bind {ε α β : Type} (given : α) (next : α → Except ε β) :
    (Except.ok given >>= next) = next given := rfl

/-- What goes on from an outcome fails when the outcome does, or later on. -/
theorem bind_eq_error_iff {ε α β : Type} {outcome : Except ε α} {next : α → Except ε β}
    {cause : ε} :
    (outcome >>= next) = .error cause ↔
      outcome = .error cause ∨ ∃ given, outcome = .ok given ∧ next given = .error cause := by
  cases outcome with
  | ok given =>
    rw [ok_bind]
    simp
  | error found => simp [bind, Except.bind]

@[simp] theorem mapError_ok {ε ε' α : Type} (tell : ε → ε') (given : α) :
    (Except.ok given).mapError tell = .ok given := rfl

@[simp] theorem mapError_error {ε ε' α : Type} (tell : ε → ε') (cause : ε) :
    (Except.error cause : Except ε α).mapError tell = .error (tell cause) := rfl

/-- Telling a failure otherwise leaves what went through. -/
theorem mapError_eq_ok_iff {ε ε' α : Type} {outcome : Except ε α} {tell : ε → ε'} {given : α} :
    outcome.mapError tell = .ok given ↔ outcome = .ok given := by
  cases outcome <;> simp

/-- A failure that is told otherwise is one that was there. -/
theorem mapError_eq_error_iff {ε ε' α : Type} {outcome : Except ε α} {tell : ε → ε'}
    {cause : ε'} :
    outcome.mapError tell = .error cause ↔
      ∃ found, outcome = .error found ∧ tell found = cause := by
  cases outcome <;> simp

end GameTrainer
