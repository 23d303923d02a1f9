import GameTrainer.ItemCodec

/-!
# Bits of words and of the bytes they are put into

Words are seen through their bits, so that shifts, masks and the two byte orders
become statements about one bit at a time. Main statements: a field of a byte
has the bits of the byte from its offset on; replacing a field changes its bits
and no others; the bytes of a number have its bits one after the other, each
byte at its place; and the two byte orders are mirror images.
-/

namespace GameTrainer

namespace Word

/-- A count below the number of bits is the distance that a word is shifted by. -/
theorem shiftDistance {count : Nat} (hc : count < 32) :
    (UInt32.ofNat count).toNat % 32 = count := by
  have hs : count < UInt32.size := by
    have : (32 : Nat) ≤ UInt32.size := by decide
    omega
  rw [UInt32.toNat_ofNat_of_lt' hs, Nat.mod_eq_of_lt hc]

/-- A shift to the left moves bits up, and drops those beyond the word. -/
theorem testBit_shiftLeft (value : UInt32) {count : Nat} (hc : count < 32) (i : Nat) :
    (value <<< UInt32.ofNat count).toNat.testBit i =
      (decide (i < 32) && (decide (count ≤ i) && value.toNat.testBit (i - count))) := by
  rw [UInt32.toNat_shiftLeft, shiftDistance hc, Nat.testBit_mod_two_pow, Nat.testBit_shiftLeft]

/-- A shift to the right moves bits down. -/
theorem testBit_shiftRight (value : UInt32) {count : Nat} (hc : count < 32) (i : Nat) :
    (value >>> UInt32.ofNat count).toNat.testBit i = value.toNat.testBit (count + i) := by
  rw [UInt32.toNat_shiftRight, shiftDistance hc, Nat.testBit_shiftRight]

/-- The complement of a word has the opposite bits. -/
theorem testBit_not (value : UInt32) (i : Nat) :
    (~~~value).toNat.testBit i = (decide (i < 32) && !value.toNat.testBit i) := by
  rw [← UInt32.toNat_toBitVec, ← UInt32.toNat_toBitVec, BitVec.testBit_toNat,
    BitVec.testBit_toNat, UInt32.toBitVec_not, BitVec.getLsbD_not]

/-- A byte made from a word has its lowest eight bits. -/
theorem testBit_toUInt8 (value : UInt32) (i : Nat) :
    value.toUInt8.toNat.testBit i = (decide (i < 8) && value.toNat.testBit i) := by
  rw [UInt32.toNat_toUInt8, Nat.testBit_mod_two_pow]

/-- A byte has no bit beyond the eighth. -/
theorem testBit_byte_eq_false (byte : UInt8) {i : Nat} (hi : 8 ≤ i) :
    byte.toNat.testBit i = false := by
  apply Nat.testBit_lt_two_pow
  have hb : byte.toNat < 2 ^ 8 := byte.toNat_lt
  have hp : 2 ^ 8 ≤ 2 ^ i := Nat.pow_le_pow_right (by decide) hi
  omega

/-- Two words with the same bits are the same. -/
theorem eq_of_testBit {first second : UInt32}
    (h : ∀ i, first.toNat.testBit i = second.toNat.testBit i) : first = second :=
  UInt32.toNat_inj.1 (Nat.eq_of_testBit_eq h)

end Word

namespace Width

/-- The number of bits of an item. -/
def span (width : Width) : Nat := width.layout.bytes * width.layout.bits

/-- The mask of a width has the bits of one item, all set. -/
theorem testBit_mask (width : Width) (i : Nat) :
    width.layout.mask.toNat.testBit i = decide (i < width.span) := by
  have hm : width.layout.mask.toNat = 2 ^ width.span - 1 := by
    cases width <;> decide
  rw [hm, Nat.testBit_two_pow_sub_one]

/-- Items of whole bytes take all eight bits of each. -/
theorem span_of_not_isSubByte {width : Width} (h : width.isSubByte = false) :
    width.span = 8 * width.layout.bytes := by
  cases width <;> first | rfl | cases h

theorem layout_bytes_le (width : Width) : width.layout.bytes ≤ 4 := by
  cases width <;> decide

end Width

namespace BitField

/-- A field that is read has the bits of the byte from its offset on. -/
theorem testBit_extract (byte : UInt8) {bit : Nat} (hb : bit < 32) (width : Width) (i : Nat) :
    (extract byte bit width.layout.mask).toNat.testBit i =
      (byte.toNat.testBit (bit + i) && decide (i < width.span)) := by
  rw [extract, UInt32.toNat_and, Nat.testBit_and, Word.testBit_shiftRight _ hb,
    UInt8.toNat_toUInt32, Width.testBit_mask]

/-- The bits that a mask over a byte selects, moved up to an offset. -/
theorem testBit_field (value : UInt32) {bit : Nat} (hb : bit < 32) {i : Nat} (hi : i < 8) :
    ((value <<< UInt32.ofNat bit) &&& 0xFF).toNat.testBit i =
      (decide (bit ≤ i) && value.toNat.testBit (i - bit)) := by
  have hl : i < 32 := by omega
  have hf : (0xFF : UInt32).toNat.testBit i = true := by
    rw [show (0xFF : UInt32).toNat = 2 ^ 8 - 1 from rfl, Nat.testBit_two_pow_sub_one]
    exact decide_eq_true hi
  rw [UInt32.toNat_and, Nat.testBit_and, Word.testBit_shiftLeft _ hb, hf, Bool.and_true,
    decide_eq_true hl, Bool.true_and]

/-- Replacing a field changes the bits of the field, and no others. -/
theorem testBit_replace (byte : UInt8) {bit : Nat} (hb : bit < 32) (width : Width)
    (value : UInt32) {i : Nat} (hi : i < 8) :
    (replace byte bit width.layout.mask value).toNat.testBit i =
      if bit ≤ i ∧ i < bit + width.span then value.toNat.testBit (i - bit)
      else byte.toNat.testBit i := by
  have hl : i < 32 := by omega
  unfold replace
  dsimp only
  rw [Word.testBit_toUInt8, UInt32.toNat_or, Nat.testBit_or, UInt32.toNat_and, Nat.testBit_and,
    Word.testBit_not, testBit_field _ hb hi, testBit_field _ hb hi, UInt32.toNat_and,
    Nat.testBit_and, Width.testBit_mask, UInt8.toNat_toUInt32, decide_eq_true hi,
    decide_eq_true hl, Bool.true_and, Bool.true_and]
  by_cases hle : bit ≤ i
  · by_cases hlt : i < bit + width.span
    · have hs : i - bit < width.span := by omega
      rw [if_pos ⟨hle, hlt⟩, decide_eq_true hle, decide_eq_true hs]
      simp only [Bool.and_true, Bool.true_and, Bool.not_true, Bool.and_false, Bool.false_or]
    · have hs : ¬i - bit < width.span := by omega
      rw [if_neg fun h => hlt h.2, decide_eq_false hs]
      simp only [Bool.and_false, Bool.not_false, Bool.and_true, Bool.or_false]
  · rw [if_neg fun h => hle h.1, decide_eq_false hle]
    simp only [Bool.false_and, Bool.not_false, Bool.and_true, Bool.or_false]

end BitField

namespace Bytes

/-- A number read from bytes that are listed from the least significant one on
has their bits one after the other, as far as a word goes. -/
theorem testBit_bigEndianValue_reverse (bytes : List UInt8) (i : Nat) :
    (bigEndianValue bytes.reverse).toNat.testBit i =
      (decide (i < 32) && bytes[i / 8]?.any fun byte => byte.toNat.testBit (i % 8)) := by
  induction bytes generalizing i with
  | nil =>
    rw [List.getElem?_nil, Option.any_none, Bool.and_false]
    exact Nat.zero_testBit i
  | cons byte rest ih =>
    have hstep : bigEndianValue (byte :: rest).reverse =
        (bigEndianValue rest.reverse <<< UInt32.ofNat 8) ||| byte.toUInt32 := by
      rw [List.reverse_cons, bigEndianValue, List.foldl_append]
      rfl
    rw [hstep, UInt32.toNat_or, Nat.testBit_or, Word.testBit_shiftLeft _ (by decide),
      UInt8.toNat_toUInt32]
    by_cases hi : i < 8
    · have hle : ¬8 ≤ i := by omega
      have hl : i < 32 := by omega
      rw [decide_eq_false hle, decide_eq_true hl, Nat.div_eq_of_lt hi, Nat.mod_eq_of_lt hi]
      rfl
    · have hle : 8 ≤ i := by omega
      obtain ⟨j, rfl⟩ := Nat.exists_eq_add_of_le hle
      have hd : (8 + j) / 8 = j / 8 + 1 := by omega
      have hm : (8 + j) % 8 = j % 8 := by omega
      rw [Word.testBit_byte_eq_false byte hle, Bool.or_false, decide_eq_true hle, Bool.true_and,
        Nat.add_sub_cancel_left, ih, hd, hm, List.getElem?_cons_succ, ← Bool.and_assoc]
      congr 1
      by_cases hl : 8 + j < 32
      · have hj : j < 32 := by omega
        rw [decide_eq_true hl, decide_eq_true hj]
        rfl
      · rw [decide_eq_false hl]
        rfl

/-- Two byte orders put one byte in the place of the other. -/
theorem bytePlace_lt {count j : Nat} (bigEndian : Bool) (hj : j < count) :
    bytePlace count bigEndian j < count := by
  unfold bytePlace
  split <;> omega

theorem bytePlace_bytePlace {count j : Nat} (bigEndian : Bool) (hj : j < count) :
    bytePlace count bigEndian (bytePlace count bigEndian j) = j := by
  unfold bytePlace
  split <;> omega

/-- The bytes of a number, from the least significant one on. -/
def fromLeast (bigEndian : Bool) (bytes : List UInt8) : List UInt8 :=
  if bigEndian then bytes.reverse else bytes

theorem length_fromLeast (bigEndian : Bool) (bytes : List UInt8) :
    (fromLeast bigEndian bytes).length = bytes.length := by
  cases bigEndian
  · rfl
  · exact List.length_reverse

/-- From the least significant byte on, bytes are met at their places. -/
theorem getElem?_fromLeast (bytes : List UInt8) {j : Nat} (bigEndian : Bool)
    (hj : j < bytes.length) :
    (fromLeast bigEndian bytes)[j]? = bytes[bytePlace bytes.length bigEndian j]? := by
  cases bigEndian
  · rfl
  · exact List.getElem?_reverse hj

theorem length_ofNumber (count : Nat) (bigEndian : Bool) (value : UInt32) :
    (ofNumber count bigEndian value).length = count := by
  rw [ofNumber, List.length_map, List.length_range]

/-- At each place stands what is left of the number behind the bytes that are less significant. -/
theorem getElem?_ofNumber {count i : Nat} (bigEndian : Bool) (value : UInt32) (hi : i < count) :
    (ofNumber count bigEndian value)[i]? =
      some (value >>> UInt32.ofNat (bytePlace count bigEndian i * 8)).toUInt8 := by
  rw [ofNumber, List.getElem?_map, List.getElem?_range hi, Option.map_some]

/-- The bytes of a number in one order are those in the other, listed from the other end. -/
theorem ofNumber_not (count : Nat) (bigEndian : Bool) (value : UInt32) :
    ofNumber count (!bigEndian) value = (ofNumber count bigEndian value).reverse := by
  have hlength := length_ofNumber count
  apply List.ext_getElem?
  intro i
  by_cases hi : i < count
  · have hother : count - 1 - i < count := by omega
    have hplace : bytePlace count (!bigEndian) i = bytePlace count bigEndian (count - 1 - i) := by
      cases bigEndian
      · rfl
      · change i = count - 1 - (count - 1 - i)
        omega
    rw [List.getElem?_reverse (by rwa [hlength]), hlength, getElem?_ofNumber _ _ hi,
      getElem?_ofNumber _ _ hother, hplace]
  · rw [List.getElem?_eq_none (by rw [hlength]; omega),
      List.getElem?_eq_none (by rw [List.length_reverse, hlength]; omega)]

/-- The bytes of a number have its bits one after the other, each byte at its place. -/
theorem testBit_ofNumber {count j k : Nat} (bigEndian : Bool) (value : UInt32) (hj : j < count)
    (hc : count ≤ 4) (hk : k < 8) :
    (ofNumber count bigEndian value)[bytePlace count bigEndian j]?.map
        (fun byte => byte.toNat.testBit k) =
      some (value.toNat.testBit (8 * j + k)) := by
  have hs : j * 8 < 32 := by omega
  rw [getElem?_ofNumber bigEndian value (bytePlace_lt bigEndian hj), bytePlace_bytePlace _ hj,
    Option.map_some, Word.testBit_toUInt8, decide_eq_true hk, Bool.true_and,
    Word.testBit_shiftRight _ hs, Nat.mul_comm]

/-- Putting bytes over others leaves what lies outside of them. -/
theorem getElem?_overwrite_outside (buffer : Bytes) {offset q : Nat} {bytes : List UInt8}
    (h : q < offset ∨ offset + bytes.length ≤ q) :
    (buffer.overwrite offset bytes)[q]? = buffer[q]? := by
  induction bytes generalizing buffer offset with
  | nil => rfl
  | cons byte rest ih =>
    rw [List.length_cons] at h
    have hne : offset ≠ q := by omega
    rw [overwrite, ih _ (by omega), Array.getElem?_setIfInBounds_ne hne]

/-- The bytes that are put over others stand at their offsets. -/
theorem getElem?_overwrite_inside (buffer : Bytes) {offset j : Nat} {bytes : List UInt8}
    (hj : j < bytes.length) (hs : offset + j < buffer.size) :
    (buffer.overwrite offset bytes)[offset + j]? = bytes[j]? := by
  induction bytes generalizing buffer offset j with
  | nil => exact absurd hj (Nat.not_lt_zero j)
  | cons byte rest ih =>
    rw [overwrite]
    cases j with
    | zero =>
      have hfirst : (byte :: rest)[0]? = some byte := rfl
      simp only [Nat.add_zero] at hs ⊢
      rw [getElem?_overwrite_outside _ (Or.inl (Nat.lt_succ_self offset)),
        Array.getElem?_setIfInBounds_self_of_lt hs, hfirst]
    | succ j =>
      rw [List.length_cons] at hj
      rw [List.getElem?_cons_succ, ← Nat.add_assoc, Nat.add_right_comm]
      apply ih
      · omega
      · rw [Array.size_setIfInBounds]
        omega

end Bytes

end GameTrainer
