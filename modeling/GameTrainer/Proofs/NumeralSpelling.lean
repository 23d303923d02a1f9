import Mathlib.Data.List.Induction
import GameTrainer.TextNumeral
import GameTrainer.Proofs.TextSpelling

/-!
# Spellings of a number

A number is written in decimal, or in hexadecimal behind `0x` or `0X`: its digits may have zeros
before them and are small or large letters, and a plus sign may stand before them. Main
statements: the digits of a number denote it in either case and behind any zeros; and a text is
read as a word exactly when it is, between blanks, a numeral that denotes this word, so that the
text of a number in range is read back as this number.
-/

namespace GameTrainer.Numeral

/-! ## Digits -/

/-- A character is the digit of a value, as a small or as a large letter. -/
def IsDigit (c : Char) (value : Nat) : Prop :=
  "0123456789abcdef".toList[value]? = some c.toLower

instance (c : Char) (value : Nat) : Decidable (IsDigit c value) :=
  inferInstanceAs (Decidable (_ = _))

theorem IsDigit.lt {c : Char} {value : Nat} (h : IsDigit c value) : value < 16 :=
  (List.getElem?_eq_some_iff.1 h).1

/-- No character behind the first ones is a digit. -/
theorem digitValue?_of_large {c : Char} (h : 128 ≤ c.toNat) : digitValue? c = none := by
  have hbound {top : Char} (htop : top.toNat < 128) : ¬c ≤ top := fun hle =>
    absurd (Nat.lt_of_le_of_lt (show c.toNat ≤ top.toNat from hle) htop) (Nat.not_lt.2 h)
  rw [digitValue?, if_neg fun hrange => hbound (by decide) hrange.2,
    if_neg fun hrange => hbound (by decide) hrange.2,
    if_neg fun hrange => hbound (by decide) hrange.2]

/-- The reader knows the digits and nothing else. -/
theorem digitValue?_eq_some_iff {c : Char} {value : Nat} :
    digitValue? c = some value ↔ IsDigit c value := by
  have hall : (∀ v ∈ digitValue? c, v < 16) ∧ ∀ v < 16, digitValue? c = some v ↔ IsDigit c v := by
    refine char_of_ascii (P := fun c => (∀ v ∈ digitValue? c, v < 16) ∧
      ∀ v < 16, digitValue? c = some v ↔ IsDigit c v) (by decide +kernel) (fun c hc => ?_) c
    have hnot : ∀ v, ¬IsDigit c v := by
      intro v hv
      rw [IsDigit, toLower_of_large hc] at hv
      have hsmall : ("0123456789abcdef".toList.all fun letter => letter.toNat < 128) = true := rfl
      have hlt := of_decide_eq_true (List.all_eq_true.1 hsmall c (List.mem_of_getElem? hv))
      omega
    simp [digitValue?_of_large hc, hnot]
  exact ⟨fun h => (hall.2 value (hall.1 value h)).1 h, fun h => (hall.2 value h.lt).2 h⟩

theorem IsDigit.isBlank {c : Char} {value : Nat} (h : IsDigit c value) : isBlank c = false := by
  have hplain : "0123456789abcdef".toList.any GameTrainer.isBlank = false := rfl
  rw [← isBlank_toLower]
  exact eq_false_of_ne_true (List.any_eq_false.1 hplain _ (List.mem_of_getElem? h))

/-- The digit that the core library writes. -/
theorem isDigit_digitChar {value : Nat} (h : value < 16) : IsDigit value.digitChar value := by
  revert h
  revert value
  decide

/-! ## Rows of digits -/

/-- A row of digits of a base denotes a number, the first of them counting the most. -/
inductive Denotes (base : Nat) : List Char → Nat → Prop where
  /-- One digit denotes its value. -/
  | one {c : Char} {value : Nat} (hdigit : IsDigit c value) (hlt : value < base) :
      Denotes base [c] value
  /-- One more digit makes all others count for more by one base. -/
  | more {front : List Char} {n : Nat} {c : Char} {value : Nat} (hfront : Denotes base front n)
      (hdigit : IsDigit c value) (hlt : value < base) :
      Denotes base (front ++ [c]) (n * base + value)

/-- The row is not empty, and every character in it is a digit. -/
theorem Denotes.digits {base : Nat} {text : List Char} {n : Nat} (h : Denotes base text n) :
    text ≠ [] ∧ ∀ c ∈ text, ∃ value, IsDigit c value := by
  induction h with
  | one hdigit =>
    refine ⟨List.cons_ne_nil _ _, fun c hc => ?_⟩
    cases List.mem_singleton.1 hc
    exact ⟨_, hdigit⟩
  | more _ hdigit _ ih =>
    refine ⟨List.append_ne_nil_of_right_ne_nil _ (List.cons_ne_nil _ _), fun c hc => ?_⟩
    obtain hc | hc := List.mem_append.1 hc
    · exact ih.2 c hc
    · cases List.mem_singleton.1 hc
      exact ⟨_, hdigit⟩

/-- A row denotes the same number in small and in large letters. -/
theorem Denotes.recased {base : Nat} {text other : List Char} {n : Nat} (h : Denotes base other n)
    (hcase : text.map Char.toLower = other.map Char.toLower) : Denotes base text n := by
  induction h generalizing text with
  | one hdigit hlt =>
    obtain ⟨c, rfl, hc⟩ := List.map_eq_singleton_iff.1 hcase
    exact .one (by rw [IsDigit, hc]; exact hdigit) hlt
  | more _ hdigit hlt ih =>
    rw [List.map_append] at hcase
    obtain ⟨front, last, rfl, hfront, hlast⟩ := List.map_eq_append_iff.1 hcase
    obtain ⟨c, rfl, hc⟩ := List.map_eq_singleton_iff.1 hlast
    exact .more (ih hfront) (by rw [IsDigit, hc]; exact hdigit) hlt

/-- A zero before a row does not count. -/
theorem Denotes.zero {base : Nat} {text : List Char} {n : Nat} (hbase : 0 < base)
    (h : Denotes base text n) : Denotes base ('0' :: text) n := by
  have hzero : IsDigit '0' 0 := by decide
  induction h with
  | one hdigit hlt =>
    have hrow := Denotes.more (.one hzero hbase) hdigit hlt
    rwa [Nat.zero_mul, Nat.zero_add] at hrow
  | more _ hdigit hlt ih => exact .more ih hdigit hlt

theorem Denotes.zeros {base : Nat} {text : List Char} {n : Nat} (hbase : 0 < base)
    (h : Denotes base text n) (count : Nat) : Denotes base (List.replicate count '0' ++ text) n := by
  induction count with
  | zero => exact h
  | succ count ih => exact ih.zero hbase

/-- The digits that the core library writes for a number denote it. -/
theorem denotes_toDigits {base : Nat} (hlow : 1 < base) (hhigh : base ≤ 16) (n : Nat) :
    Denotes base (Nat.toDigits base n) n := by
  induction n using Nat.strongRecOn with
  | ind n ih =>
    by_cases hlt : n < base
    · rw [Nat.toDigits_of_lt_base hlt]
      exact .one (isDigit_digitChar (by omega)) hlt
    · have hmod : n % base < base := Nat.mod_lt n (by omega)
      have hfront := ih (n / base) (Nat.div_lt_self (by omega) hlow)
      have hrow := Denotes.more hfront (isDigit_digitChar (by omega)) hmod
      rw [Nat.div_add_mod'] at hrow
      rwa [Nat.toDigits_of_base_le hlow (by omega)]

/-! ## Numerals -/

/-- A row of digits, which a plus sign may stand before, denotes a number. -/
inductive Signed (base : Nat) : List Char → Nat → Prop where
  | plain {text : List Char} {n : Nat} (h : Denotes base text n) : Signed base text n
  | plus {text : List Char} {n : Nat} (h : Denotes base text n) : Signed base ('+' :: text) n

/-- A numeral stands for a number: it is decimal, or hexadecimal behind `0x` or `0X`. -/
inductive Spells : List Char → Nat → Prop where
  | decimal {text : List Char} {n : Nat} (h : Signed 10 text n) : Spells text n
  | hexadecimal {text : List Char} {n : Nat} {x : Char} (hx : x = 'x' ∨ x = 'X')
      (h : Signed 16 text n) : Spells ('0' :: x :: text) n

/-- A text is a numeral for a word, between blanks. -/
def Written (text : List Char) (word : UInt32) : Prop :=
  ∃ numeral, Text.Padded numeral text ∧ Spells numeral word.toNat

/-! ## Reading numerals -/

/-- A row with one digit more is read when the row before it is. -/
theorem digits?_concat {base value n : Nat} {text : List Char} {c : Char} :
    digits? base value (text ++ [c]) = some n ↔
      ∃ front digit, digits? base value text = some front ∧ IsDigit c digit ∧ digit < base ∧
        front * base + digit = n := by
  induction text generalizing value with
  | nil =>
    rw [List.nil_append, digits?, digits?]
    cases hdigit : digitValue? c with
    | none => simp [← digitValue?_eq_some_iff, hdigit]
    | some digit => simp [← digitValue?_eq_some_iff, hdigit, digits?]
  | cons first rest ih =>
    rw [List.cons_append, digits?, digits?]
    cases digitValue? first with
    | none => simp
    | some digit =>
      dsimp only
      split
      · exact ih
      · simp

theorem unsigned?_of_ne_nil (base : Nat) {text : List Char} (h : text ≠ []) :
    unsigned? base text = digits? base 0 text :=
  if_neg fun hempty => h (List.isEmpty_iff.1 hempty)

/-- A row of digits is read as the number that it denotes. -/
theorem unsigned?_eq_some_iff {base n : Nat} {text : List Char} :
    unsigned? base text = some n ↔ Denotes base text n := by
  constructor
  · intro h
    induction text using List.reverseRecOn generalizing n with
    | nil => cases h
    | append_singleton front c ih =>
      rw [unsigned?_of_ne_nil base (List.append_ne_nil_of_right_ne_nil _ (List.cons_ne_nil _ _)),
        digits?_concat] at h
      obtain ⟨m, digit, hfront, hdigit, hlt, rfl⟩ := h
      by_cases hnil : front = []
      · subst hnil
        cases hfront
        rw [Nat.zero_mul, Nat.zero_add]
        exact .one hdigit hlt
      · rw [← unsigned?_of_ne_nil base hnil] at hfront
        exact .more (ih hfront) hdigit hlt
  · intro h
    induction h with
    | one hdigit hlt =>
      have hnone : digits? base 0 [] = some 0 := rfl
      refine digits?_concat.2 ⟨0, _, hnone, hdigit, hlt, ?_⟩
      rw [Nat.zero_mul, Nat.zero_add]
    | more hfront hdigit hlt ih =>
      rw [unsigned?_of_ne_nil base hfront.digits.1] at ih
      rw [unsigned?_of_ne_nil base (List.append_ne_nil_of_right_ne_nil _ (List.cons_ne_nil _ _))]
      exact digits?_concat.2 ⟨_, _, ih, hdigit, hlt, rfl⟩

/-- A row of digits has no other character in it. -/
theorem Denotes.not_mem {base n : Nat} {text : List Char} (h : Denotes base text n) {c : Char}
    (hc : digitValue? c = none) : c ∉ text := by
  intro hmem
  obtain ⟨value, hvalue⟩ := h.digits.2 c hmem
  rw [← digitValue?_eq_some_iff, hc] at hvalue
  cases hvalue

/-- Only a plus sign is read before the digits. -/
theorem natural?_eq_some_iff {base n : Nat} {text : List Char} :
    natural? base text = some n ↔ Signed base text n := by
  have hplain : unsigned? base text = some n → Signed base text n := fun h =>
    .plain (unsigned?_eq_some_iff.1 h)
  cases text with
  | nil =>
    refine ⟨hplain, fun h => ?_⟩
    cases h with
    | plain h => exact unsigned?_eq_some_iff.2 h
  | cons c rest =>
    by_cases hplus : c = '+'
    · rw [hplus]
      refine ⟨fun h => .plus (unsigned?_eq_some_iff.1 h), fun h => ?_⟩
      cases h with
      | plain h => exact absurd List.mem_cons_self (h.not_mem rfl)
      | plus h => exact unsigned?_eq_some_iff.2 h
    · rw [natural?]
      · refine ⟨hplain, fun h => ?_⟩
        cases h with
        | plain h => exact unsigned?_eq_some_iff.2 h
        | plus h => exact absurd rfl hplus
      · exact fun later heq => hplus (List.cons.inj heq).1

/-- Behind the prefix only hexadecimal digits stand. -/
theorem spells_hexadecimal_iff {text : List Char} {n : Nat} {x : Char} (hx : x = 'x' ∨ x = 'X') :
    Spells ('0' :: x :: text) n ↔ Signed 16 text n := by
  have hnone : digitValue? x = none := by
    rcases hx with rfl | rfl <;> rfl
  refine ⟨fun h => ?_, .hexadecimal hx⟩
  cases h with
  | decimal h =>
    cases h with
    | plain h => exact absurd (List.mem_cons_of_mem _ List.mem_cons_self) (h.not_mem hnone)
  | hexadecimal _ h => exact h

/-- A number in the range of words is the word, and any other one is none. -/
theorem map_below?_eq_some_iff {number : Option Nat} {word : UInt32} :
    (below? UInt32.size number).map UInt32.ofNat = some word ↔ number = some word.toNat := by
  cases number with
  | none => simp [below?]
  | some n =>
    rw [below?, Option.filter_some, Option.some.injEq]
    by_cases hlt : n < UInt32.size
    · rw [if_pos (decide_eq_true hlt), Option.map_some, Option.some.injEq, ← UInt32.toNat_inj,
        UInt32.toNat_ofNat_of_lt' hlt]
    · rw [if_neg (by simpa using hlt)]
      have hne : n ≠ word.toNat := fun heq => hlt (heq ▸ word.toNat_lt)
      simp [hne]

/-- A numeral is read when its number is in the range of words. -/
theorem word?_eq_some_iff_spells {text : List Char} {word : UInt32} :
    word? text = some word ↔ Spells (Text.trim text) word.toNat := by
  rw [word?, map_below?_eq_some_iff]
  generalize Text.trim text = numeral
  split
  · rw [natural?_eq_some_iff, spells_hexadecimal_iff (.inl rfl)]
  · rw [natural?_eq_some_iff, spells_hexadecimal_iff (.inr rfl)]
  · rename_i hsmall hlarge
    rw [natural?_eq_some_iff]
    refine ⟨.decimal, fun h => ?_⟩
    cases h with
    | decimal h => exact h
    | hexadecimal hx h =>
      obtain rfl | rfl := hx
      · exact absurd rfl (hsmall _)
      · exact absurd rfl (hlarge _)

theorem Signed.isBlank {base n : Nat} {text : List Char} (h : Signed base text n) :
    ∀ c ∈ text, isBlank c = false := by
  cases h with
  | plain h =>
    intro c hc
    obtain ⟨_, hdigit⟩ := h.digits.2 c hc
    exact hdigit.isBlank
  | plus h =>
    refine List.forall_mem_cons.2 ⟨rfl, fun c hc => ?_⟩
    obtain ⟨_, hdigit⟩ := h.digits.2 c hc
    exact hdigit.isBlank

/-- A numeral has no blank in it. -/
theorem Spells.isBlank {text : List Char} {n : Nat} (h : Spells text n) :
    ∀ c ∈ text, isBlank c = false := by
  cases h with
  | decimal h => exact h.isBlank
  | hexadecimal hx h =>
    refine List.forall_mem_cons.2 ⟨rfl, List.forall_mem_cons.2 ⟨?_, h.isBlank⟩⟩
    rcases hx with rfl | rfl <;> rfl

/-- A text is read as the word that it is a numeral for, and as nothing if it is none. -/
theorem word?_eq_some_iff {text : List Char} {word : UInt32} :
    word? text = some word ↔ Written text word := by
  rw [word?_eq_some_iff_spells]
  constructor
  · exact fun h => ⟨_, Text.padded_trim text, h⟩
  · rintro ⟨numeral, hpadded, hspells⟩
    rw [Text.trim_of_padded hpadded (Text.trim_of_no_blank hspells.isBlank)]
    exact hspells

/-! ## The numerals of the core library -/

/-- The digits of a number are decimal digits. -/
theorem isDigit_of_mem_toString {n : Nat} {c : Char} (h : c ∈ (toString n).toList) :
    c.isDigit = true := by
  rw [Nat.toString_eq_ofList_toDigits, String.toList_ofList] at h
  exact Nat.isDigit_of_mem_toDigits (by decide) (by decide) h

/-- The text of a number is a numeral for it. -/
theorem spells_toString (n : Nat) : Spells (toString n).toList n := by
  rw [Nat.toString_eq_ofList_toDigits, String.toList_ofList]
  exact .decimal (.plain (denotes_toDigits (by decide) (by decide) n))

/-- The text of a number that fits a word is read back as that number. -/
theorem word?_toString {n : Nat} (hn : n < UInt32.size) :
    word? (toString n).toList = some (UInt32.ofNat n) := by
  have hword : (UInt32.ofNat n).toNat = n := UInt32.toNat_ofNat_of_lt' hn
  refine word?_eq_some_iff.2 ⟨_, Text.padded_self _, ?_⟩
  rw [hword]
  exact spells_toString n

end GameTrainer.Numeral
