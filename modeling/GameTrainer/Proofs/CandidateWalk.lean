import GameTrainer.Proofs.CandidateView

/-!
# Walks over candidate sets

A walk keeps a cursor and finds one candidate after the other, without a list.
What a cursor has before it is a part of the list of candidates: those at its
place and behind it. Main statements: each step of a walk finds the first of
these and leaves the others before the cursor, so a walk from the beginning
meets the whole list, numbered from zero, and then ends.
-/

namespace GameTrainer

namespace ItemAddress

/-- In a strictly rising list, those from one address on are this address and
those behind it. -/
theorem filter_eq_cons {list : List ItemAddress} {first : ItemAddress}
    {fromFirst behind : ItemAddress → Bool} (hl : list.Pairwise Before) (hm : first ∈ list)
    (hfrom : ∀ other ∈ list, fromFirst other = true ↔ other = first ∨ behind other = true)
    (hbehind : ∀ other ∈ list, behind other = true → first.Before other) :
    list.filter fromFirst = first :: list.filter behind := by
  induction list with
  | nil => cases hm
  | cons head tail ih =>
    obtain ⟨hhead, htail⟩ := List.pairwise_cons.1 hl
    have hself : head ∈ head :: tail := List.mem_cons_self
    by_cases he : first = head
    · subst he
      have hnot : ¬behind first = true := fun h => Before.irrefl first (hbehind first hself h)
      rw [List.filter_cons_of_pos ((hfrom first hself).2 (Or.inl rfl)),
        List.filter_cons_of_neg hnot]
      refine congrArg _ (List.filter_congr ?_)
      intro other ho
      have hne : other ≠ first := by
        rintro rfl
        exact Before.irrefl other (hhead other ho)
      have hiff := hfrom other (List.mem_cons_of_mem _ ho)
      rw [Bool.eq_iff_iff, hiff, or_iff_right hne]
    · have hmem : first ∈ tail := (List.mem_cons.1 hm).resolve_left he
      have hbefore := hhead first hmem
      have hnot : ¬behind head = true := by
        intro h
        have hafter := hbehind head hself h
        unfold Before at hbefore hafter
        omega
      have hnotFrom : ¬fromFirst head = true := by
        rw [hfrom head hself]
        rintro (h | h)
        · exact he h.symm
        · exact hnot h
      rw [List.filter_cons_of_neg hnotFrom, List.filter_cons_of_neg hnot]
      exact ih htail hmem (fun other ho => hfrom other (List.mem_cons_of_mem _ ho))
        (fun other ho => hbehind other (List.mem_cons_of_mem _ ho))

end ItemAddress

namespace Candidates

/-- A walk from a cursor finds these candidates with these numbers, and then no
other one. -/
inductive Walks (set : Candidates) : Cursor → List (ItemAddress × Nat) → Prop where
  | done {cursor : Cursor} (none_left : set.next? cursor = none) : set.Walks cursor []
  | found {cursor behind : Cursor} {found : ItemAddress × Nat} {later : List (ItemAddress × Nat)}
      (next : set.next? cursor = some (found, behind)) (rest : set.Walks behind later) :
      set.Walks cursor (found :: later)

/-- The address is at the place of a cursor or behind it. -/
def Cursor.ahead (width : Width) (cursor : Cursor) (address : ItemAddress) : Bool :=
  decide (cursor.unit * width.layout.bytes < address.byte ∨
    cursor.unit * width.layout.bytes = address.byte ∧ cursor.bit ≤ address.bit)

/-- The candidates that a cursor has before it. -/
def left (set : Candidates) (cursor : Cursor) : List ItemAddress :=
  set.toList.filter (cursor.ahead set.width)

/-- The masks cover exactly their own units. -/
theorem covers_self (set : Candidates) :
    set.Covers (set.masks.size * set.width.layout.bytes) :=
  (Nat.mul_div_cancel _ set.width.layout_bytes_pos).symm

/-- Behind the last mask byte there is nothing. -/
theorem left_of_size_le {set : Candidates} {cursor : Cursor}
    (h : set.masks.size ≤ cursor.unit) : set.left cursor = [] := by
  rw [left, List.filter_eq_nil_iff]
  intro address ha
  obtain ⟨unit, hunit, hbyte, _⟩ := mem_toList_iff.1 ha
  have hlt : unit * set.width.layout.bytes < cursor.unit * set.width.layout.bytes :=
    Nat.mul_lt_mul_of_pos_right (by omega) set.width.layout_bytes_pos
  rw [Cursor.ahead, decide_eq_true_iff]
  omega

/-- Behind the last bit of a byte comes the next unit. -/
theorem left_of_eight_le {set : Candidates} {cursor : Cursor} (h : 8 ≤ cursor.bit) (met : Nat) :
    set.left cursor = set.left ⟨cursor.unit + 1, 0, met⟩ := by
  have hb := set.width.layout_bytes_pos
  refine List.filter_congr ?_
  intro address ha
  obtain ⟨unit, hunit, hbyte, hbit, _⟩ := mem_toList_iff.1 ha
  have hlt := (Width.mem_bitOffsets.1 hbit).2
  have hbehind : cursor.unit * set.width.layout.bytes < unit * set.width.layout.bytes ↔
      (cursor.unit + 1) * set.width.layout.bytes < unit * set.width.layout.bytes ∨
        (cursor.unit + 1) * set.width.layout.bytes = unit * set.width.layout.bytes := by
    rw [← Nat.le_iff_lt_or_eq, Nat.mul_lt_mul_right hb, Nat.mul_le_mul_right_iff hb]
    omega
  simp only [Cursor.ahead, decide_eq_decide]
  omega

/-- An item between two neighbouring bit offsets is the one at the lower. -/
theorem ahead_succ {set : Candidates} {cursor : Cursor} {address : ItemAddress} (met : Nat)
    (hdvd : set.width.layout.bits ∣ cursor.bit) (ha : address ∈ set.toList) :
    cursor.ahead set.width address = true ↔
      address = ⟨cursor.unit * set.width.layout.bytes, cursor.bit⟩ ∨
        Cursor.ahead set.width ⟨cursor.unit, cursor.bit + set.width.layout.bits, met⟩ address
          = true := by
  obtain ⟨byte, bit⟩ := address
  obtain ⟨_, _, _, hbit, _⟩ := mem_toList_iff.1 ha
  have hstep : cursor.bit ≤ bit ↔ bit = cursor.bit ∨ cursor.bit + set.width.layout.bits ≤ bit := by
    obtain ⟨k, hk⟩ := (Width.mem_bitOffsets.1 hbit).1
    obtain ⟨j, hj⟩ := hdvd
    have hpos := set.width.layout_bits_pos
    dsimp only at hk
    rw [hk, hj, ← Nat.mul_succ, Nat.mul_le_mul_left_iff hpos, Nat.mul_le_mul_left_iff hpos,
      Nat.mul_left_cancel_iff hpos]
    omega
  simp only [Cursor.ahead, decide_eq_true_iff, ItemAddress.mk.injEq]
  omega

/-- An item whose group is clear is not met. -/
theorem left_of_not_marked {set : Candidates} {cursor : Cursor} (met : Nat)
    (hdvd : set.width.layout.bits ∣ cursor.bit)
    (hm : marked set.width (set.masks.getD cursor.unit 0) cursor.bit = false) :
    set.left cursor = set.left ⟨cursor.unit, cursor.bit + set.width.layout.bits, met⟩ := by
  refine List.filter_congr ?_
  intro address ha
  rw [Bool.eq_iff_iff, ahead_succ met hdvd ha, or_iff_right]
  rintro rfl
  obtain ⟨unit, _, hbyte, _, hmark⟩ := mem_toList_iff.1 ha
  have heq : cursor.unit = unit := Nat.eq_of_mul_eq_mul_right set.width.layout_bytes_pos hbyte
  dsimp only at hmark
  rw [heq, hmark] at hm
  cases hm

/-- An item whose group is marked is met first. -/
theorem left_of_marked {set : Candidates} {cursor : Cursor} (met : Nat)
    (hunit : cursor.unit < set.masks.size) (hlt : cursor.bit < 8)
    (hdvd : set.width.layout.bits ∣ cursor.bit)
    (hm : marked set.width (set.masks.getD cursor.unit 0) cursor.bit = true) :
    set.left cursor = ⟨cursor.unit * set.width.layout.bytes, cursor.bit⟩ ::
      set.left ⟨cursor.unit, cursor.bit + set.width.layout.bits, met⟩ := by
  refine ItemAddress.filter_eq_cons (pairwise_toList set.covers_self) ?_
    (fun other ho => ahead_succ met hdvd ho) ?_
  · exact mem_toList_iff.2
      ⟨cursor.unit, hunit, rfl, Width.mem_bitOffsets.2 ⟨hdvd, hlt⟩, hm⟩
  · intro other _ hahead
    have hpos := set.width.layout_bits_pos
    rw [Cursor.ahead, decide_eq_true_iff] at hahead
    unfold ItemAddress.Before
    dsimp only at hahead ⊢
    omega

/-- What one step of a walk does: it ends when nothing is left, and else finds the
first of what is left, with the number of candidates met so far. -/
theorem next?_spec (set : Candidates) (cursor : Cursor)
    (hdvd : set.width.layout.bits ∣ cursor.bit) :
    (set.next? cursor = none ∧ set.left cursor = []) ∨
      ∃ address behind, set.next? cursor = some ((address, cursor.met), behind) ∧
        set.left cursor = address :: set.left behind ∧
        behind.met = cursor.met + 1 ∧ set.width.layout.bits ∣ behind.bit := by
  fun_induction next? set cursor with
  | case1 cursor hunit hlt behind hm =>
    exact Or.inr ⟨_, _, rfl, left_of_marked _ hunit hlt hdvd hm, rfl,
      Nat.dvd_add hdvd (Nat.dvd_refl _)⟩
  | case2 cursor hunit hlt behind hm ih =>
    rw [Bool.not_eq_true] at hm
    rw [left_of_not_marked cursor.met hdvd hm]
    exact ih (Nat.dvd_add hdvd (Nat.dvd_refl _))
  | case3 cursor hunit hlt ih =>
    rw [left_of_eight_le (Nat.not_lt.1 hlt) cursor.met]
    exact ih (Nat.dvd_zero _)
  | case4 cursor hunit => exact Or.inl ⟨rfl, left_of_size_le (Nat.not_lt.1 hunit)⟩

/-- A walk from a cursor meets what the cursor has before it, and numbers it from
the number of candidates met before. -/
theorem walks_left {set : Candidates} {cursor : Cursor} {ahead : List ItemAddress}
    (hdvd : set.width.layout.bits ∣ cursor.bit) (h : set.left cursor = ahead) :
    set.Walks cursor (ahead.zipIdx cursor.met) := by
  induction ahead generalizing cursor with
  | nil =>
    rcases set.next?_spec cursor hdvd with ⟨hnone, _⟩ | ⟨_, _, _, hleft, _⟩
    · exact Walks.done hnone
    · rw [h] at hleft
      cases hleft
  | cons address rest ih =>
    rcases set.next?_spec cursor hdvd with ⟨_, hleft⟩ | ⟨_, behind, hnext, hleft, hmet, hbits⟩
    · rw [h] at hleft
      cases hleft
    · rw [h] at hleft
      cases hleft
      rw [List.zipIdx_cons, ← hmet]
      exact Walks.found hnext (ih hbits rfl)

/-- The walk over the whole set meets the list of candidates, numbered from zero. -/
theorem walks_toList (set : Candidates) : set.Walks {} set.toList.zipIdx := by
  refine walks_left (Nat.dvd_zero _) ?_
  rw [left, List.filter_eq_self]
  intro address _
  rw [Cursor.ahead, decide_eq_true_iff]
  dsimp only
  omega

/-- Going on for some candidates in a walk finds the one that stands there. -/
theorem nthFrom?_of_walks {set : Candidates} {cursor : Cursor} {met : List (ItemAddress × Nat)}
    (h : set.Walks cursor met) (index : Nat) :
    set.nthFrom? cursor index = (met[index]?).map Prod.fst := by
  induction h generalizing index with
  | done none_left =>
    cases index with
    | zero => rw [nthFrom?, none_left]; rfl
    | succ index => rw [nthFrom?, none_left]; rfl
  | found next _ ih =>
    cases index with
    | zero => rw [nthFrom?, next]; rfl
    | succ index => rw [nthFrom?, next, List.getElem?_cons_succ, ← ih]; rfl

/-- The candidate with a number is the one at that place of the list. -/
theorem nth?_eq (set : Candidates) (index : Nat) : set.nth? index = set.toList[index]? := by
  rw [nth?, nthFrom?_of_walks set.walks_toList, ← List.getElem?_map, List.zipIdx_map_fst]

end Candidates

end GameTrainer
