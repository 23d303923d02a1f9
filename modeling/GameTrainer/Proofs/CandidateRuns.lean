import GameTrainer.Proofs.CandidateElimination
import GameTrainer.Proofs.CandidateWalk

/-!
# Runs of eliminations

A search takes candidates away in many steps. After any run of removals and
filters from the full set, the set is the finite set of those items of the
region that no step dropped: its list, its walk, its kept number and its
membership test agree, and the next step drops exactly what it names.
-/

namespace GameTrainer

namespace Candidates

/-- The set after steps, in order. -/
def eliminateAll (set : Candidates) (steps : List Elimination) : Candidates :=
  steps.foldl eliminate set

/-- A run keeps exactly the candidates that no step drops. -/
theorem keeps_eliminateAll {set : Candidates} {size : Nat} (hc : set.Covers size)
    (steps : List Elimination) :
    set.Keeps (set.eliminateAll steps) fun address =>
      steps.all fun step => !step.drops set.width address := by
  induction steps generalizing set with
  | nil => exact Keeps.refl fun _ _ => rfl
  | cons step rest ih =>
    have hfirst := keeps_eliminate hc step
    apply (hfirst.trans (ih (hfirst.covers hc))).congr
    intro address _
    rw [hfirst.width, List.all_cons, Bool.and_comm]

/-- An item is left after a run exactly when no step drops it. -/
theorem mem_toList_eliminateAll (size : Nat) (width : Width) (steps : List Elimination)
    (address : ItemAddress) :
    address ∈ ((all size width).eliminateAll steps).toList ↔
      address.InGrid width size ∧ ∀ step ∈ steps, step.drops width address = false := by
  have hkeeps := keeps_eliminateAll (covers_all size width) steps
  have hwidth : (all size width).width = width := rfl
  rw [hkeeps.toList, toList_all, List.mem_filter, ItemAddress.mem_grid, hwidth]
  simp only [List.all_eq_true, Bool.not_eq_true']

/-- After any run of removals and filters, the set behaves as the finite set of
the items that no step dropped. The list and the walk give each of them once, in
rising order; the kept number, the membership test and the search by number agree
with the list. The next step drops exactly its items, and the kept number falls by
as many as go. A removal tells whether it dropped one, and where no item begins it
changes nothing at all. -/
theorem eliminateAll_finite_set (size : Nat) (width : Width) (steps : List Elimination) :
    let set := (all size width).eliminateAll steps
    (∀ address, address ∈ set.toList ↔
      address.InGrid width size ∧ ∀ step ∈ steps, step.drops width address = false) ∧
    set.toList.Pairwise ItemAddress.Before ∧
    set.Walks {} set.toList.zipIdx ∧
    set.count = set.toList.length ∧
    (∀ address, address ∈ set.toList ↔
      address.InGrid width size ∧ set.contains address = true) ∧
    (∀ index, set.nth? index = set.toList[index]?) ∧
    (∀ step, (set.eliminate step).toList =
        set.toList.filter (fun address => !step.drops width address) ∧
      (set.eliminate step).count + set.toList.countP (step.drops width) = set.count) ∧
    ∀ byte bit,
      (set.removes byte bit = true ↔
        ∃ address ∈ set.toList, (Elimination.remove byte bit).drops width address = true) ∧
      (Misplaced width size byte bit →
        set.remove byte bit = set ∧ set.removes byte bit = false) := by
  intro set
  have hkeeps := keeps_eliminateAll (covers_all size width) steps
  have hc : set.Covers size := hkeeps.covers (covers_all size width)
  have hn : set.Counted := hkeeps.counted (counted_all size width)
  have hwidth : set.width = width := hkeeps.width
  refine ⟨mem_toList_eliminateAll size width steps, pairwise_toList hc, set.walks_toList, hn,
    ?_, set.nth?_eq, ?_, ?_⟩
  · intro address
    rw [mem_toList hc, hwidth]
  · intro step
    have hstep := keeps_eliminate hc step
    have hcount := hstep.count_add hn
    simp only [Bool.not_not, hwidth] at hcount
    rw [hwidth] at hstep
    exact ⟨hstep.toList, hcount⟩
  · intro byte bit
    have hrem := removes_iff hc byte bit
    rw [hwidth] at hrem
    refine ⟨hrem, fun hmis => remove_of_misplaced hc ?_⟩
    rw [hwidth]
    exact hmis

/-- Of the four items of two bits in one byte, removing the one at bit two and
keeping those above bit zero leaves the upper two. -/
example : ((all 1 .bits2).eliminateAll
    [.remove 0 (some 2), .filter fun address => address.bit != 0]).toList = [⟨0, 4⟩, ⟨0, 6⟩] := by
  decide

end Candidates

end GameTrainer
