import FormulaCompiler.Binary64.Decimal
import FormulaCompiler.Proofs.Binary64.Rank

/-!
# Rounding to the nearest number

Ranks are in the order of the numbers that they stand for (`unitsOfRank_lt`), and the rank that a quotient is
rounded to is that of the nearest number, the even one of two that are equally near (`isNearest_nearestRank`).
The exponents are not bounded here: a quotient is too large for a double just if the nearest rank is that of
the infinities or lies above it.
-/

namespace FormulaCompiler.Binary64

/-- How far a quotient is from the number of a rank, in units divided by the denominator. -/
def distance (numerator denominator rank : Nat) : Nat :=
  (unitsOfRank rank * denominator - numerator * unitsOfOne) + (numerator * unitsOfOne - unitsOfRank rank * denominator)

/-- A rank is nearest to a quotient if no rank is nearer, and if it is even where another is as near. -/
structure IsNearest (numerator denominator rank : Nat) : Prop where
  nearest (other : Nat) : distance numerator denominator rank ≤ distance numerator denominator other
  even (other : Nat) (hother : other ≠ rank)
    (hequal : distance numerator denominator other = distance numerator denominator rank) : rank % 2 = 0

/-! ### The order of ranks -/

theorem unitsOfRank_lt_succ (rank : Nat) : unitsOfRank rank < unitsOfRank (rank + 1) := by
  obtain ⟨shift, significand, hfits, rfl⟩ := exists_shift rank
  rw [Nat.add_assoc, unitsOfRank_shifted (Nat.le_of_lt hfits.1) hfits.2,
    unitsOfRank_shifted (Nat.succ_le_of_lt hfits.1) (hfits.2.imp_right Nat.le_succ_of_le)]
  exact (Nat.mul_lt_mul_right (Nat.two_pow_pos shift)).2 (Nat.lt_succ_self significand)

theorem unitsOfRank_lt {low high : Nat} (h : low < high) : unitsOfRank low < unitsOfRank high := by
  induction h with
  | refl => exact unitsOfRank_lt_succ low
  | step _ ih => exact Nat.lt_trans ih (unitsOfRank_lt_succ _)

/-! ### Quotients -/

/-- The shift of a quotient leaves a significand of full length, unless the quotient is short itself. -/
theorem fits_quotient (value denominator : Nat) :
    Fits ((value / denominator).log2 - 52)
      (value / (denominator * Nat.pow 2 ((value / denominator).log2 - 52))) := by
  rw [← Nat.div_div_eq_div_mul, Nat.pow_eq]
  generalize value / denominator = quotient
  have hpower : 0 < 2 ^ (quotient.log2 - 52) := Nat.two_pow_pos _
  have hfull : 2 * ranksPerPower = 2 ^ 53 := by decide
  have hhalf : ranksPerPower = 2 ^ 52 := by decide
  rw [Fits, hfull, hhalf]
  constructor
  · apply Nat.div_lt_of_lt_mul
    rw [← Nat.pow_add]
    have hshift : 2 ^ (quotient.log2 + 1) ≤ 2 ^ (quotient.log2 - 52 + 53) :=
      Nat.pow_le_pow_right (by decide) (by omega)
    exact Nat.lt_of_lt_of_le Nat.lt_log2_self hshift
  · by_cases hlog : quotient.log2 ≤ 52
    · exact .inl (by omega)
    · right
      have hne : quotient ≠ 0 := by
        intro hzero
        rw [hzero, Nat.log2_zero] at hlog
        omega
      rw [Nat.le_div_iff_mul_le hpower, ← Nat.pow_add, Nat.add_sub_cancel' (by omega)]
      exact Nat.log2_self_le hne

/-- A quotient that lies between two neighbouring ranks is rounded to one of them: to the nearer one, or to the
even one if both are equally near. -/
theorem isNearest_of_between {numerator denominator rank : Nat} (lower step remainder : Nat) (h : 0 < denominator)
    (hstep : unitsOfRank (lower + 1) * denominator = unitsOfRank lower * denominator + step)
    (hvalue : numerator * unitsOfOne = unitsOfRank lower * denominator + remainder) (hremainder : remainder < step)
    (hrank : rank = lower ∧ (2 * remainder < step ∨ 2 * remainder = step ∧ lower % 2 = 0) ∨
      rank = lower + 1 ∧ (step < 2 * remainder ∨ 2 * remainder = step ∧ lower % 2 = 1)) :
    IsNearest numerator denominator rank := by
  have hcases (other : Nat) : other = lower ∨ other = lower + 1 ∨
      unitsOfRank other * denominator < unitsOfRank lower * denominator ∨
      unitsOfRank lower * denominator + step < unitsOfRank other * denominator := by
    rw [← hstep]
    obtain hother | hother | hother | hother :
        other = lower ∨ other = lower + 1 ∨ other < lower ∨ lower + 1 < other := by omega
    · exact .inl hother
    · exact .inr (.inl hother)
    · exact .inr (.inr (.inl ((Nat.mul_lt_mul_right h).2 (unitsOfRank_lt hother))))
    · exact .inr (.inr (.inr ((Nat.mul_lt_mul_right h).2 (unitsOfRank_lt hother))))
  constructor
  · intro other
    rw [distance, distance, hvalue]
    obtain ⟨rfl, hrank⟩ | ⟨rfl, hrank⟩ := hrank <;>
      obtain rfl | rfl | hother | hother := hcases other <;> omega
  · intro other hother hequal
    rw [distance, distance, hvalue] at hequal
    obtain ⟨rfl, hrank⟩ | ⟨rfl, hrank⟩ := hrank <;>
      obtain rfl | rfl | hother | hother := hcases other <;> omega

/-- **A quotient is rounded to the nearest number.** -/
theorem isNearest_nearestRank (numerator : Nat) {denominator : Nat} (h : 0 < denominator) :
    IsNearest numerator denominator (nearestRank numerator denominator) := by
  have hfits := fits_quotient (numerator * unitsOfOne) denominator
  rw [nearestRank]
  generalize (numerator * unitsOfOne / denominator).log2 - 52 = shift at hfits ⊢
  have hstep : 0 < denominator * Nat.pow 2 shift := Nat.mul_pos h (Nat.two_pow_pos shift)
  have hremainder := Nat.mod_lt (numerator * unitsOfOne) hstep
  have hdivision := Nat.div_add_mod' (numerator * unitsOfOne) (denominator * Nat.pow 2 shift)
  rw [divideToEven]
  generalize numerator * unitsOfOne / (denominator * Nat.pow 2 shift) = significand at hfits hdivision ⊢
  generalize numerator * unitsOfOne % (denominator * Nat.pow 2 shift) = remainder at hremainder hdivision ⊢
  have hlower : unitsOfRank (shift * ranksPerPower + significand) * denominator =
      significand * (denominator * Nat.pow 2 shift) := by
    rw [unitsOfRank_shifted (Nat.le_of_lt hfits.1) hfits.2, Nat.mul_assoc, Nat.mul_comm (Nat.pow 2 shift)]
  have hupper : unitsOfRank (shift * ranksPerPower + significand + 1) * denominator =
      significand * (denominator * Nat.pow 2 shift) + denominator * Nat.pow 2 shift := by
    rw [Nat.add_assoc, unitsOfRank_shifted (Nat.succ_le_of_lt hfits.1) (hfits.2.imp_right Nat.le_succ_of_le),
      Nat.mul_assoc, Nat.mul_comm (Nat.pow 2 shift), Nat.succ_mul]
  have heven : (shift * ranksPerPower + significand) % 2 = significand % 2 := by
    simp only [ranksPerPower]
    omega
  apply isNearest_of_between (shift * ranksPerPower + significand) (denominator * Nat.pow 2 shift) remainder h
  · rw [hupper, hlower]
  · rw [hlower, hdivision]
  · exact hremainder
  · rw [heven]
    generalize denominator * Nat.pow 2 shift = step at hremainder ⊢
    split
    · exact .inl ⟨rfl, .inl ‹_›⟩
    · split
      · exact .inr ⟨(Nat.add_assoc _ _ _).symm, .inl ‹_›⟩
      · have htie : 2 * remainder = step := by omega
        split
        · exact .inl ⟨rfl, .inr ⟨htie, ‹_›⟩⟩
        · exact .inr ⟨(Nat.add_assoc _ _ _).symm, .inr ⟨htie, by omega⟩⟩

end FormulaCompiler.Binary64

namespace FormulaCompiler.Decimal

/-- A decimal denotes the nearest double, unless that would have to be an infinity. -/
def Denotes (d : Decimal) : Option Binary64 → Prop
  | some x => x.isNegative = false ∧ x.isFinite = true ∧
      Binary64.IsNearest (d.digits * Nat.pow 10 d.exponent.toNat) (Nat.pow 10 (-d.exponent).toNat) x.rank
  | none => ∃ rank, Binary64.infinityRank ≤ rank ∧
      Binary64.IsNearest (d.digits * Nat.pow 10 d.exponent.toNat) (Nat.pow 10 (-d.exponent).toNat) rank

/-- **Decimals are read as the doubles that they denote.** -/
theorem denotes_toBinary64? (d : Decimal) : d.Denotes d.toBinary64? := by
  have hnearest := Binary64.isNearest_nearestRank (d.digits * Nat.pow 10 d.exponent.toNat)
    (Nat.pow_pos (by decide) : 0 < Nat.pow 10 (-d.exponent).toNat)
  rw [toBinary64?, nearestRank]
  generalize Binary64.nearestRank _ _ = rank at hnearest ⊢
  by_cases hrank : rank < Binary64.infinityRank
  · have hplace : rank < Binary64.signPlace := Nat.lt_trans hrank (by decide)
    have hfinite : (Binary64.ofRank false rank).isFinite = true := by
      rw [Binary64.isFinite, Binary64.rank_ofRank hplace]
      exact decide_eq_true hrank
    have hpositive : (Binary64.ofRank false rank).isNegative = false := by
      rw [Binary64.isNegative, Binary64.toNat_bits_ofRank hplace]
      exact decide_eq_false (by simpa using hplace)
    rw [if_pos hrank, Denotes, Binary64.rank_ofRank hplace]
    exact ⟨hpositive, hfinite, hnearest⟩
  · rw [if_neg hrank]
    exact ⟨rank, Nat.not_lt.1 hrank, hnearest⟩

end FormulaCompiler.Decimal
