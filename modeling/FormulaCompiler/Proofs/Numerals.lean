import FormulaCompiler.Binary64.Decimal

/-!
# Numerals

Runs of decimal digits read back as the numbers that they were written for, whole (`natural?_repr`,
`integer?_repr`) or filled up with zeros to a width (`digitsValue_padded`).
-/

namespace FormulaCompiler.Decimal

/-! ### Values of digits -/

theorem digitsValue_toDigits (n : Nat) : digitsValue (Nat.toDigits 10 n) = n := Nat.ofDigitChars_ten_toDigits

theorem all_isDigit_toDigits (n : Nat) : (Nat.toDigits 10 n).all Char.isDigit = true := by
  rw [List.all_eq_true]
  intro c hc
  exact Nat.isDigit_of_mem_toDigits (by decide) (by decide) hc

theorem digitsValue_append (whole places : List Char) :
    digitsValue (whole ++ places) = digitsValue whole * Nat.pow 10 places.length + digitsValue places := by
  show Nat.ofDigitChars 10 _ 0 = Nat.ofDigitChars 10 _ 0 * _ + Nat.ofDigitChars 10 _ 0
  rw [Nat.ofDigitChars_append, Nat.ofDigitChars_eq_ofDigitChars_zero, Nat.mul_comm]
  rfl

/-! ### Whole numbers -/

/-- The number that some digits denote. -/
def natural? (text : List Char) : Option Nat :=
  if text ≠ [] ∧ text.all Char.isDigit then some (digitsValue text) else none

/-- The number that some digits denote, perhaps after a minus sign. -/
def integer? : List Char → Option Int
  | '-' :: text => (natural? text).map fun n : Nat => -(n : Int)
  | text => (natural? text).map fun n : Nat => (n : Int)

theorem natural?_repr (n : Nat) : natural? n.repr.toList = some n := by
  rw [Nat.toList_repr, natural?, if_pos ⟨Nat.toDigits_ne_nil, all_isDigit_toDigits n⟩, digitsValue_toDigits]

theorem integer?_of_natural? {text : List Char} {n : Nat} (h : natural? text = some n) :
    integer? text = some (n : Int) := by
  unfold integer?
  split
  · cases h
  · rw [h, Option.map_some]

theorem integer?_repr (i : Int) : integer? i.repr.toList = some i := by
  rw [Int.repr_eq_if]
  by_cases hsign : 0 ≤ i
  · rw [if_pos hsign, integer?_of_natural? (natural?_repr _), Int.toNat_of_nonneg hsign]
  · rw [if_neg hsign, String.toList_append]
    show integer? ('-' :: (-i).toNat.repr.toList) = some i
    rw [integer?, natural?_repr, Option.map_some, Int.toNat_of_nonneg (by omega), Int.neg_neg]

theorem notMem_repr {c : Char} (hdigit : c.isDigit = false) (n : Nat) : c ∉ n.repr.toList := by
  intro hmem
  rw [Nat.toList_repr] at hmem
  rw [Nat.isDigit_of_mem_toDigits (by decide) (by decide) hmem] at hdigit
  contradiction

/-- The text of an integer has digits and a minus sign only. -/
theorem notMem_repr_int {c : Char} (hdigit : c.isDigit = false) (hsign : c ≠ '-') (i : Int) : c ∉ i.repr.toList := by
  rw [Int.repr_eq_if]
  by_cases hi : 0 ≤ i
  · rw [if_pos hi]
    exact notMem_repr hdigit _
  · rw [if_neg hi, String.toList_append, List.mem_append, not_or]
    exact ⟨by simpa using hsign, notMem_repr hdigit _⟩

/-! ### Numbers of a given width -/

variable {width n : Nat}

theorem toList_padded (width n : Nat) : (padded width n).toList =
    List.replicate (width - (Nat.toDigits 10 n).length) '0' ++ Nat.toDigits 10 n := by
  rw [padded, Nat.toString_eq_repr, String.toList_append, String.toList_ofList, Nat.toList_repr,
    ← String.length_toList, Nat.toList_repr]

theorem length_padded (hwidth : 0 < width) (h : n < Nat.pow 10 width) : (padded width n).toList.length = width := by
  have hdigits : (Nat.toDigits 10 n).length ≤ width := (Nat.length_toDigits_le_iff (by decide) hwidth).2 h
  rw [toList_padded, List.length_append, List.length_replicate]
  omega

theorem digitsValue_padded : digitsValue (padded width n).toList = n := by
  rw [toList_padded, digitsValue_append, digitsValue_toDigits]
  show Nat.ofDigitChars 10 _ 0 * _ + n = n
  rw [Nat.ofDigitChars_replicate_zero, Nat.mul_zero, Nat.zero_mul, Nat.zero_add]

theorem all_isDigit_padded : (padded width n).toList.all Char.isDigit = true := by
  rw [toList_padded, List.all_append, all_isDigit_toDigits, Bool.and_true, List.all_replicate]
  split <;> rfl

end FormulaCompiler.Decimal
