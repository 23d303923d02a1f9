/-!
# Blank characters

Texts are handled as lists of characters. A character is blank when Unicode
gives it the property `White_Space`; `trim` cuts the blanks off both ends of a
text and leaves those inside alone. Main statement: a text with no blank at
either end is its own trim.
-/

namespace GameTrainer

/-- The code points with the Unicode property `White_Space`, as ranges with
both ends included. -/
def blankRanges : List (Nat × Nat) :=
  [(0x09, 0x0D), (0x20, 0x20), (0x85, 0x85), (0xA0, 0xA0), (0x1680, 0x1680),
   (0x2000, 0x200A), (0x2028, 0x2029), (0x202F, 0x202F), (0x205F, 0x205F), (0x3000, 0x3000)]

/-- Membership of a character in the blank ranges. -/
def isBlank (c : Char) : Bool :=
  blankRanges.any fun range => range.1 ≤ c.toNat && c.toNat ≤ range.2

namespace Text

/-- The text from its first character that is not blank. -/
def trimStart (text : List Char) : List Char :=
  text.dropWhile isBlank

/-- The text up to its last character that is not blank. -/
def trimEnd (text : List Char) : List Char :=
  (text.reverse.dropWhile isBlank).reverse

/-- The text without the blanks at its two ends. -/
def trim (text : List Char) : List Char :=
  trimEnd (trimStart text)

@[simp] theorem trim_nil : trim [] = [] := rfl

theorem trimStart_eq_self {c : Char} {rest : List Char} (h : isBlank c = false) :
    trimStart (c :: rest) = c :: rest := by
  simp [trimStart, h]

theorem trimEnd_eq_self {c : Char} {front : List Char} (h : isBlank c = false) :
    trimEnd (front ++ [c]) = front ++ [c] := by
  simp [trimEnd, h]

/-- A text whose first and last characters are not blank is its own trim. -/
theorem trim_eq_self {text : List Char}
    (hfirst : ∀ c ∈ text.head?, isBlank c = false)
    (hlast : ∀ c ∈ text.getLast?, isBlank c = false) : trim text = text := by
  cases text with
  | nil => rfl
  | cons c rest =>
    have hc : isBlank c = false := hfirst c rfl
    rw [trim, trimStart_eq_self hc]
    have hne : c :: rest ≠ [] := List.cons_ne_nil c rest
    have hl : isBlank ((c :: rest).getLast hne) = false :=
      hlast _ (List.getLast?_eq_some_getLast hne)
    rw [← List.dropLast_concat_getLast hne]
    exact trimEnd_eq_self hl

end Text

end GameTrainer
