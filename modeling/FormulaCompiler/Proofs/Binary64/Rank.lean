import FormulaCompiler.Binary64

/-!
# Ranks and the numbers they stand for

A number is its sign and its rank (`ofRank_rank`), and rounding gives back the rank of a quotient that is
exactly the number of a rank (`nearestRank_of_units`). So every way to write a finite number without error
reads back as the same number.
-/

namespace FormulaCompiler.Binary64

/-! ### Sign and rank -/

theorem rank_lt_signPlace (x : Binary64) : x.rank < signPlace := Nat.mod_lt _ (by decide)

/-- A number has no more than its sign and its rank. -/
theorem ofRank_rank (x : Binary64) : ofRank x.isNegative x.rank = x := by
  have hlt : x.bits.toNat < 2 * signPlace := x.bits.toNat_lt
  have hword : (if x.isNegative then signPlace else 0) + x.rank = x.bits.toNat := by
    rw [isNegative, rank]
    by_cases hsign : signPlace ≤ x.bits.toNat
    · rw [decide_eq_true hsign, if_pos rfl, Nat.mod_eq_sub_mod hsign, Nat.mod_eq_of_lt (by omega)]
      omega
    · rw [decide_eq_false hsign, if_neg Bool.false_ne_true, Nat.mod_eq_of_lt (by omega), Nat.zero_add]
  rw [ofRank, hword, UInt64.ofNat_toNat]

variable {negative : Bool} {rank : Nat}

theorem toNat_bits_ofRank (h : rank < signPlace) :
    (ofRank negative rank).bits.toNat = (if negative then signPlace else 0) + rank := by
  have hlt : (if negative then signPlace else 0) + rank < 2 ^ 64 := by
    simp only [signPlace] at h ⊢
    split <;> omega
  exact UInt64.toNat_ofNat_of_lt' hlt

theorem rank_ofRank (h : rank < signPlace) : (ofRank negative rank).rank = rank := by
  rw [Binary64.rank, toNat_bits_ofRank h]
  simp only [signPlace] at h ⊢
  split <;> omega

/-! ### Units -/

theorem unitsOfRank_low (h : rank < ranksPerPower) : unitsOfRank rank = rank :=
  if_pos (Nat.div_eq_of_lt h)

theorem unitsOfRank_high (power : Nat) {fraction : Nat} (h : fraction < ranksPerPower) :
    unitsOfRank ((power + 1) * ranksPerPower + fraction) = (ranksPerPower + fraction) * Nat.pow 2 power := by
  have hpower : ((power + 1) * ranksPerPower + fraction) / ranksPerPower = power + 1 := by
    rw [Nat.add_comm, Nat.add_mul_div_right _ _ (by decide), Nat.div_eq_of_lt h, Nat.zero_add]
  have hfraction : ((power + 1) * ranksPerPower + fraction) % ranksPerPower = fraction := by
    rw [Nat.add_comm, Nat.add_mul_mod_self_right, Nat.mod_eq_of_lt h]
  rw [unitsOfRank, hpower, hfraction]
  rfl

/-- The significands that a shift is for: those of full length, and without a shift also the shorter ones. -/
def Fits (shift significand : Nat) : Prop :=
  significand < 2 * ranksPerPower ∧ (shift = 0 ∨ ranksPerPower ≤ significand)

theorem exists_shift (rank : Nat) : ∃ shift significand, Fits shift significand ∧
    shift * ranksPerPower + significand = rank := by
  have hdivision := Nat.div_add_mod' rank ranksPerPower
  have hfraction : rank % ranksPerPower < ranksPerPower := Nat.mod_lt _ (by decide)
  cases hpower : rank / ranksPerPower with
  | zero => exact ⟨0, rank, ⟨by rw [hpower] at hdivision; omega, .inl rfl⟩, by omega⟩
  | succ power =>
      rw [hpower, Nat.succ_mul] at hdivision
      exact ⟨power, ranksPerPower + rank % ranksPerPower, ⟨by omega, .inr (by omega)⟩, by omega⟩

/-- A rank stands for its significand, shifted. This goes on to the next power of two. -/
theorem unitsOfRank_shifted {shift significand : Nat} (h : significand ≤ 2 * ranksPerPower)
    (hlow : shift = 0 ∨ ranksPerPower ≤ significand) :
    unitsOfRank (shift * ranksPerPower + significand) = significand * Nat.pow 2 shift := by
  by_cases hshort : significand < ranksPerPower
  · obtain rfl : shift = 0 := by omega
    rw [Nat.zero_mul, Nat.zero_add, unitsOfRank_low hshort]
    exact (Nat.mul_one significand).symm
  · obtain ⟨fraction, rfl⟩ := Nat.exists_eq_add_of_le (Nat.not_lt.1 hshort)
    rw [← Nat.add_assoc, ← Nat.succ_mul]
    by_cases hfull : fraction < ranksPerPower
    · exact unitsOfRank_high shift hfull
    · obtain rfl : fraction = ranksPerPower := by omega
      have hcarry : shift.succ * ranksPerPower + ranksPerPower = (shift + 1 + 1) * ranksPerPower + 0 := by
        rw [Nat.add_zero, Nat.add_mul (shift + 1), Nat.one_mul]
      have hdouble : Nat.pow 2 (shift + 1) = 2 * Nat.pow 2 shift := Nat.mul_comm (Nat.pow 2 shift) 2
      rw [hcarry, unitsOfRank_high (shift + 1) (by decide), hdouble, Nat.add_zero, ← Nat.mul_assoc, Nat.mul_two]

theorem log2_shifted {shift significand : Nat} (h : Fits shift significand) :
    (significand * Nat.pow 2 shift).log2 - 52 = shift := by
  obtain ⟨hlt, hlow⟩ := h
  by_cases hshort : significand < ranksPerPower
  · obtain rfl : shift = 0 := by omega
    have hone : significand * Nat.pow 2 0 = significand := Nat.mul_one significand
    rw [hone]
    by_cases hzero : significand = 0
    · rw [hzero, Nat.log2_zero]
    · have hlog : significand.log2 < 52 := (Nat.log2_lt hzero).2 hshort
      omega
  · have hpower : 0 < 2 ^ shift := Nat.two_pow_pos shift
    have hlog : (significand * 2 ^ shift).log2 = 52 + shift := by
      rw [Nat.log2_eq_iff (Nat.ne_of_gt (Nat.mul_pos (by omega) hpower)), Nat.add_right_comm, Nat.pow_add,
        Nat.pow_add]
      exact ⟨Nat.mul_le_mul_right _ (Nat.not_lt.1 hshort), (Nat.mul_lt_mul_right hpower).2 hlt⟩
    show (significand * 2 ^ shift).log2 - 52 = shift
    rw [hlog]
    omega

/-! ### Exact quotients -/

theorem divideToEven_mul (quotient : Nat) {denominator : Nat} (h : 0 < denominator) :
    divideToEven (quotient * denominator) denominator = quotient := by
  rw [divideToEven, Nat.mul_div_cancel _ h, Nat.mul_mod_left, if_pos (by omega)]

/-- A quotient that is the number of a rank is rounded to that rank. -/
theorem nearestRank_of_units {numerator denominator : Nat} (hdenominator : 0 < denominator)
    (h : numerator * unitsOfOne = unitsOfRank rank * denominator) :
    nearestRank numerator denominator = rank := by
  obtain ⟨shift, significand, hfits, hrank⟩ := exists_shift rank
  have hunits : unitsOfRank rank = significand * Nat.pow 2 shift := by
    rw [← hrank, unitsOfRank_shifted (Nat.le_of_lt hfits.1) hfits.2]
  have hscaled : unitsOfRank rank * denominator = significand * (denominator * Nat.pow 2 shift) := by
    rw [hunits, Nat.mul_assoc, Nat.mul_comm (Nat.pow 2 shift)]
  have hstep : 0 < denominator * Nat.pow 2 shift := Nat.mul_pos hdenominator (Nat.two_pow_pos shift)
  rw [nearestRank, h, Nat.mul_div_cancel _ hdenominator, hunits, log2_shifted hfits, ← hunits, hscaled,
    divideToEven_mul significand hstep, hrank]

end FormulaCompiler.Binary64
