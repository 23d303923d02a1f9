import Mathlib.Data.List.Forall2
import Mathlib.Data.List.TakeWhile
import GameTrainer.TextBlank

/-!
# Other spellings of a text

A word may have blanks around it and letters in either case. Main statements: folding gives the
same text for every choice of the cases; trimming twice is trimming once; and trimming gives a
text that is its own trim back from between any blanks, and takes nothing but blanks away.
-/

namespace GameTrainer

/-! ## Characters in small and in large letters -/

/-- What holds of the first characters one by one and of all later ones holds of every one. -/
theorem char_of_ascii {P : Char → Prop} (hsmall : ∀ n < 128, P (Char.ofNat n))
    (hlarge : ∀ c : Char, 128 ≤ c.toNat → P c) (c : Char) : P c := by
  by_cases h : c.toNat < 128
  · have hc := hsmall c.toNat h
    rwa [Char.ofNat_toNat] at hc
  · exact hlarge c (Nat.le_of_not_lt h)

/-- Only the first characters have a small letter of their own. -/
theorem toLower_of_large {c : Char} (h : 128 ≤ c.toNat) : c.toLower = c := by
  have hrange : ¬(c.val ≥ 'A'.val ∧ c.val ≤ 'Z'.val) := by
    rintro ⟨-, hle⟩
    have hsmall : c.toNat ≤ 90 := hle
    omega
  exact dif_neg hrange

/-- Only the first characters have a large letter of their own. -/
theorem toUpper_of_large {c : Char} (h : 128 ≤ c.toNat) : c.toUpper = c := by
  have hrange : ¬('a'.val ≤ c.val ∧ c.val ≤ 'z'.val) := by
    rintro ⟨-, hle⟩
    have hsmall : c.toNat ≤ 122 := hle
    omega
  exact dif_neg hrange

theorem toLower_toLower (c : Char) : c.toLower.toLower = c.toLower := by
  refine char_of_ascii (P := fun c => c.toLower.toLower = c.toLower) (by decide +kernel)
    (fun c hc => ?_) c
  rw [toLower_of_large hc, toLower_of_large hc]

theorem toLower_toUpper (c : Char) : c.toUpper.toLower = c.toLower := by
  refine char_of_ascii (P := fun c => c.toUpper.toLower = c.toLower) (by decide +kernel)
    (fun c hc => ?_) c
  rw [toUpper_of_large hc]

/-- A letter is a small one or the large one that belongs to it. -/
theorem eq_toLower_or (c : Char) : c = c.toLower ∨ c = c.toLower.toUpper := by
  refine char_of_ascii (P := fun c => c = c.toLower ∨ c = c.toLower.toUpper) (by decide +kernel)
    (fun c hc => .inl ?_) c
  rw [toLower_of_large hc]

/-- Blanks are no letters. -/
theorem isBlank_toLower (c : Char) : isBlank c.toLower = isBlank c := by
  refine char_of_ascii (P := fun c => isBlank c.toLower = isBlank c) (by decide +kernel)
    (fun c hc => ?_) c
  rw [toLower_of_large hc]

/-- A decimal digit is no blank. -/
theorem isBlank_of_isDigit {c : Char} (h : c.isDigit = true) : isBlank c = false := by
  refine char_of_ascii (P := fun c => c.isDigit = true → isBlank c = false) (by decide +kernel)
    (fun c hc hdigit => ?_) c h
  rw [Char.isDigit, Bool.and_eq_true, decide_eq_true_eq, decide_eq_true_eq] at hdigit
  have hsmall : c.toNat ≤ 57 := hdigit.2
  omega

namespace Text

/-! ## Letters in either case -/

/-- One text is another in which any letters may stand in the other case. -/
def Recased (text other : List Char) : Prop :=
  List.Forall₂ (fun c d => c = d ∨ c = d.toLower ∨ c = d.toUpper) text other

theorem recased_refl (text : List Char) : Recased text text :=
  List.forall₂_same.2 fun _ _ => .inl rfl

/-- In small letters, a text is the same for every choice of the cases. -/
theorem Recased.map_toLower {text other : List Char} (h : Recased text other) :
    text.map Char.toLower = other.map Char.toLower := by
  induction h with
  | nil => rfl
  | @cons c d rest later hc hrest ih =>
    have hletter : c.toLower = d.toLower := by
      obtain rfl | rfl | rfl := hc
      · rfl
      · exact toLower_toLower d
      · exact toLower_toUpper d
    rw [List.map_cons, List.map_cons, hletter, ih]

/-- Every text is one of the choices of the cases for what it is in small letters. -/
theorem recased_map_toLower (text : List Char) : Recased text (text.map Char.toLower) := by
  rw [Recased, List.forall₂_map_right_iff]
  exact List.forall₂_same.2 fun c _ => (eq_toLower_or c).imp_right .inr

/-! ## Trimming -/

/-- A text without blanks is its own trim. -/
theorem trim_of_no_blank {text : List Char} (h : ∀ c ∈ text, isBlank c = false) :
    trim text = text := by
  apply trim_eq_self
  · intro c hc
    exact h c (List.mem_of_mem_head? hc)
  · intro c hc
    exact h c (List.mem_of_getLast? hc)

/-- Cutting blanks off the end leaves a beginning of the text. -/
theorem prefix_trimEnd (text : List Char) : trimEnd text <+: text := by
  have hsuffix := List.dropWhile_suffix (l := text.reverse) isBlank
  rw [← List.reverse_prefix, List.reverse_reverse] at hsuffix
  exact hsuffix

/-- Trimming only takes characters away. -/
theorem mem_of_mem_trim {text : List Char} {c : Char} (h : c ∈ trim text) : c ∈ text :=
  (List.dropWhile_suffix isBlank).subset ((prefix_trimEnd _).subset h)

/-- A text does not begin with a blank after its beginning was trimmed. -/
theorem isBlank_head_trimStart (text : List Char) {c : Char}
    (h : (trimStart text).head? = some c) : isBlank c = false := by
  have hfirst := List.head?_dropWhile_not isBlank text
  rw [trimStart] at h
  rw [h] at hfirst
  exact hfirst

/-- A text does not begin with a blank after it was trimmed. -/
theorem isBlank_head_trim (text : List Char) {c : Char} (h : (trim text).head? = some c) :
    isBlank c = false := by
  obtain ⟨back, hback⟩ := prefix_trimEnd (trimStart text)
  apply isBlank_head_trimStart text
  rw [trim] at h
  rw [← hback, List.head?_append, h, Option.some_or]

/-- A text that is its own trim does not begin with a blank. -/
theorem isBlank_head {c : Char} {rest : List Char} (h : trim (c :: rest) = c :: rest) :
    isBlank c = false :=
  isBlank_head_trim (c :: rest) (congrArg List.head? h)

/-- Trimming twice is trimming once. -/
theorem trim_trim (text : List Char) : trim (trim text) = trim text := by
  apply trim_eq_self
  · intro c hc
    exact isBlank_head_trim text hc
  · intro c hc
    rw [trim, trimEnd, List.getLast?_reverse] at hc
    exact isBlank_head_trimStart _ hc

/-- A text that does not begin with a blank begins in the same way after it was trimmed. -/
theorem prefix_of_isBlank_head {c : Char} (rest : List Char) (h : isBlank c = false) :
    trim (c :: rest) <+: c :: rest := by
  rw [trim, trimStart_eq_self h]
  exact prefix_trimEnd _

/-! ## Blanks around a text -/

/-- A text stands in another one with only blanks before and after it. -/
def Padded (inner text : List Char) : Prop :=
  ∃ front back, text = front ++ inner ++ back ∧
    (∀ c ∈ front, isBlank c = true) ∧ ∀ c ∈ back, isBlank c = true

theorem padded_self (text : List Char) : Padded text text :=
  ⟨[], [], by rw [List.nil_append, List.append_nil], List.forall_mem_nil _, List.forall_mem_nil _⟩

theorem padded_append_blank (text : List Char) {blank : Char} (h : isBlank blank = true) :
    Padded text (text ++ [blank]) :=
  ⟨[], [blank], rfl, List.forall_mem_nil _, List.forall_mem_singleton.2 h⟩

theorem trimStart_append {front : List Char} (text : List Char)
    (h : ∀ c ∈ front, isBlank c = true) : trimStart (front ++ text) = trimStart text :=
  List.dropWhile_append_of_pos h

theorem trimEnd_append (text : List Char) {back : List Char}
    (h : ∀ c ∈ back, isBlank c = true) : trimEnd (text ++ back) = trimEnd text := by
  rw [trimEnd, List.reverse_append,
    List.dropWhile_append_of_pos fun c hc => h c (List.mem_reverse.1 hc)]
  rfl

/-- A text that is its own trim is what trimming leaves of it between blanks. -/
theorem trim_of_padded {inner text : List Char} (h : Padded inner text)
    (hinner : trim inner = inner) : trim text = inner := by
  obtain ⟨front, back, rfl, hfront, hback⟩ := h
  rw [trim, List.append_assoc, trimStart_append _ hfront]
  cases inner with
  | nil =>
    have hempty := trimStart_append [] hback
    rw [List.append_nil] at hempty
    rw [List.nil_append, hempty]
    rfl
  | cons c rest =>
    have hc : isBlank c = false := isBlank_head hinner
    rw [trim, trimStart_eq_self hc] at hinner
    rw [List.cons_append, trimStart_eq_self hc, ← List.cons_append, trimEnd_append _ hback, hinner]

/-- What trimming takes away is blank. -/
theorem padded_trim (text : List Char) : Padded (trim text) text := by
  refine ⟨text.takeWhile isBlank, ((trimStart text).reverse.takeWhile isBlank).reverse, ?_, ?_, ?_⟩
  · have hend : trim text ++ ((trimStart text).reverse.takeWhile isBlank).reverse =
        trimStart text := by
      rw [trim, trimEnd, ← List.reverse_append, List.takeWhile_append_dropWhile,
        List.reverse_reverse]
    rw [List.append_assoc, hend, trimStart, List.takeWhile_append_dropWhile]
  · exact fun c hc => List.mem_takeWhile_imp hc
  · exact fun c hc => List.mem_takeWhile_imp (List.mem_reverse.1 hc)

end Text

end GameTrainer
