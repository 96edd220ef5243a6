import FormulaCompiler.Proofs.Binary64.Nearest
import Mathlib.Algebra.Order.Field.Rat
import Mathlib.Tactic.NormNum

/-!
# Exact values

A finite number stands for a rational number that is read off the fields of its word (`value`). This value is the
number of units with the sign of the word (`value_eq_iff_signedUnits`), and numbers compare as their values do
(`beq_iff`).
-/

namespace FormulaCompiler.Binary64

/-! ### Fields -/

/-- The eleven bits below the sign bit. -/
def exponentBits (x : Binary64) : Nat := x.bits.toNat / 2 ^ 52 % 2 ^ 11

/-- The 52 bits below the exponent bits. -/
def fractionBits (x : Binary64) : Nat := x.bits.toNat % 2 ^ 52

/-- The magnitude of a finite number. The fraction has a one in front of it, unless all exponent bits are zero. -/
def magnitude (x : Binary64) : ℚ :=
  if x.exponentBits = 0 then x.fractionBits * 2 ^ (-1074 : ℤ)
  else (2 ^ 52 + x.fractionBits) * 2 ^ ((x.exponentBits : ℤ) - 1075)

/-- The exact value of a finite number. Both zeros have the value zero. -/
def value (x : Binary64) : ℚ := if x.isNegative then -x.magnitude else x.magnitude

variable {x y : Binary64} {i : ℤ}

theorem rank_div (x : Binary64) : x.rank / ranksPerPower = x.exponentBits := by
  simp only [rank, signPlace, ranksPerPower, exponentBits]
  omega

theorem rank_mod (x : Binary64) : x.rank % ranksPerPower = x.fractionBits := by
  simp only [rank, signPlace, ranksPerPower, fractionBits]
  omega

theorem rank_eq (x : Binary64) : x.rank = x.exponentBits * ranksPerPower + x.fractionBits := by
  rw [← rank_div, ← rank_mod, Nat.div_add_mod']

/-- The numbers that are not finite have all exponent bits. -/
theorem isFinite_iff : x.isFinite = true ↔ x.exponentBits ≠ 2047 := by
  have hbits : x.exponentBits < 2 ^ 11 := Nat.mod_lt _ (by decide)
  rw [isFinite, decide_eq_true_iff, infinityRank, ← Nat.div_lt_iff_lt_mul (by decide), rank_div]
  omega

theorem isNaN_iff : x.isNaN = true ↔ x.exponentBits = 2047 ∧ x.fractionBits ≠ 0 := by
  have hbits : x.exponentBits < 2 ^ 11 := Nat.mod_lt _ (by decide)
  have hfraction : x.fractionBits < ranksPerPower := Nat.mod_lt _ (by decide)
  rw [isNaN, decide_eq_true_iff, rank_eq, infinityRank]
  simp only [ranksPerPower] at hfraction ⊢
  omega

theorem isNaN_of_isFinite (h : x.isFinite = true) : x.isNaN = false :=
  decide_eq_false (Nat.lt_asymm (of_decide_eq_true h))

/-! ### Units -/

/-- The exact value of a finite number in units. -/
def signedUnits (x : Binary64) : ℤ := if x.isNegative then -(x.units : ℤ) else x.units

theorem cast_pow_two (power : Nat) : ((Nat.pow 2 power : Nat) : ℚ) = 2 ^ (power : ℤ) := by
  rw [Nat.pow_eq, Nat.cast_pow, zpow_natCast, Nat.cast_ofNat]

theorem unitsOfOne_pos : 0 < unitsOfOne := by
  delta unitsOfOne
  generalize 1074 = power
  exact Nat.two_pow_pos power

/-- A magnitude in units is the shifted significand. -/
theorem cast_units (x : Binary64) : (x.units : ℚ) = x.magnitude * unitsOfOne := by
  have hone : (unitsOfOne : ℚ) = 2 ^ ((1074 : Nat) : ℤ) := by
    delta unitsOfOne
    generalize 1074 = power
    exact cast_pow_two power
  have htwo : (2 : ℚ) ≠ 0 := two_ne_zero
  rw [units, unitsOfRank, rank_div, rank_mod, magnitude, hone]
  by_cases hzero : x.exponentBits = 0
  · rw [if_pos hzero, if_pos hzero, mul_assoc, ← zpow_add₀ htwo, rank_eq, hzero, Nat.zero_mul, Nat.zero_add]
    simp
  · have hpower : ((x.exponentBits - 1 : Nat) : ℤ) = (x.exponentBits : ℤ) - 1075 + ((1074 : Nat) : ℤ) := by omega
    rw [if_neg hzero, if_neg hzero, mul_assoc, ← zpow_add₀ htwo, Nat.cast_mul, cast_pow_two, hpower, Nat.cast_add]
    norm_num [ranksPerPower]

theorem cast_signedUnits (x : Binary64) : (x.signedUnits : ℚ) = x.value * unitsOfOne := by
  rw [signedUnits, value]
  split
  · rw [Int.cast_neg, Int.cast_natCast, cast_units, neg_mul]
  · rw [Int.cast_natCast, cast_units]

theorem value_eq_iff_signedUnits : x.value = i ↔ x.signedUnits = i * unitsOfOne := by
  have hone : (unitsOfOne : ℚ) ≠ 0 := Nat.cast_ne_zero.2 (Nat.ne_of_gt unitsOfOne_pos)
  rw [← mul_left_inj' hone, ← cast_signedUnits, ← Int.cast_natCast unitsOfOne, ← Int.cast_mul, Int.cast_inj]

theorem value_eq_value_iff : x.value = y.value ↔ x.signedUnits = y.signedUnits := by
  have hone : (unitsOfOne : ℚ) ≠ 0 := Nat.cast_ne_zero.2 (Nat.ne_of_gt unitsOfOne_pos)
  rw [← mul_left_inj' hone, ← cast_signedUnits, ← cast_signedUnits, Int.cast_inj]

theorem unitsOfRank_injective {rank other : Nat} (h : unitsOfRank rank = unitsOfRank other) : rank = other := by
  obtain hlt | heq | hlt := Nat.lt_trichotomy rank other
  · exact absurd h (Nat.ne_of_lt (unitsOfRank_lt hlt))
  · exact heq
  · exact absurd h (Nat.ne_of_gt (unitsOfRank_lt hlt))

theorem units_eq_zero_iff : x.units = 0 ↔ x.rank = 0 := by
  have hzero : unitsOfRank 0 = 0 := unitsOfRank_low (by decide)
  constructor
  · intro h
    exact unitsOfRank_injective (h.trans hzero.symm)
  · intro h
    rw [units, h, hzero]

/-! ### Comparison -/

theorem eq_of_rank_eq (hsign : x.isNegative = y.isNegative) (hrank : x.rank = y.rank) : x = y := by
  rw [← ofRank_rank x, ← ofRank_rank y, hsign, hrank]

/-- Two numbers have one number of units if they are the same or both are zeros. -/
theorem signedUnits_eq_iff : x.signedUnits = y.signedUnits ↔ x = y ∨ x.rank = 0 ∧ y.rank = 0 := by
  constructor
  · intro h
    rw [← units_eq_zero_iff, ← units_eq_zero_iff]
    simp only [signedUnits] at h
    by_cases hsign : x.isNegative = y.isNegative
    · left
      apply eq_of_rank_eq hsign
      apply unitsOfRank_injective
      show x.units = y.units
      rw [hsign] at h
      split at h <;> omega
    · right
      split at h <;> split at h <;> first | omega | simp_all
  · rintro (rfl | ⟨hx, hy⟩)
    · rfl
    · rw [← units_eq_zero_iff] at hx hy
      simp [signedUnits, hx, hy]

theorem sameNumber_iff :
    (x == y) = true ↔ x.isNaN = false ∧ y.isNaN = false ∧ (x = y ∨ x.rank = 0 ∧ y.rank = 0) := by
  have hbits : x.bits = y.bits ↔ x = y := by
    cases x
    cases y
    simp
  show sameNumber x y = true ↔ _
  simp only [sameNumber, Bool.and_eq_true, Bool.or_eq_true, Bool.not_eq_true', beq_iff_eq, hbits, and_assoc]

theorem sameNumber_of_signedUnits (hx : x.isFinite = true) (hy : y.isFinite = true) :
    (x == y) = true ↔ x.signedUnits = y.signedUnits := by
  rw [sameNumber_iff, signedUnits_eq_iff]
  exact ⟨fun h => h.2.2, fun h => ⟨isNaN_of_isFinite hx, isNaN_of_isFinite hy, h⟩⟩

/-- What numerical equality is: of finite numbers the equality of their exact values, while an infinity is equal to
itself alone and a NaN to nothing. -/
def Equal (x y : Binary64) : Prop :=
  (x.exponentBits ≠ 2047 ∧ y.exponentBits ≠ 2047 ∧ x.value = y.value) ∨
    (x.exponentBits = 2047 ∧ x.fractionBits = 0 ∧ x = y)

/-- **Numbers compare as their exact values do.** -/
theorem beq_iff : (x == y) = true ↔ x.Equal y := by
  rw [sameNumber_iff, Equal, ← isFinite_iff, ← isFinite_iff, value_eq_value_iff, signedUnits_eq_iff]
  constructor
  · rintro ⟨hx, hy, rfl | ⟨hxzero, hyzero⟩⟩
    · by_cases hfinite : x.isFinite = true
      · exact .inl ⟨hfinite, hfinite, .inl rfl⟩
      · rw [isFinite_iff, not_not] at hfinite
        refine .inr ⟨hfinite, ?_, rfl⟩
        by_contra hfraction
        rw [isNaN_iff.2 ⟨hfinite, hfraction⟩] at hx
        contradiction
    · refine .inl ⟨decide_eq_true ?_, decide_eq_true ?_, .inr ⟨hxzero, hyzero⟩⟩
      · rw [hxzero]
        decide
      · rw [hyzero]
        decide
  · rintro (⟨hx, hy, hsame⟩ | ⟨hexponent, hfraction, rfl⟩)
    · exact ⟨isNaN_of_isFinite hx, isNaN_of_isFinite hy, hsame⟩
    · have hnumber : x.isNaN = false := by
        rw [Bool.eq_false_iff, Ne, isNaN_iff]
        exact fun h => h.2 hfraction
      exact ⟨hnumber, hnumber, .inl rfl⟩

theorem Equal.symm (h : x.Equal y) : y.Equal x := by
  obtain ⟨hx, hy, hvalue⟩ | ⟨hexponent, hfraction, rfl⟩ := h
  · exact .inl ⟨hy, hx, hvalue.symm⟩
  · exact .inr ⟨hexponent, hfraction, rfl⟩

theorem Equal.trans {z : Binary64} (h : x.Equal y) (h' : y.Equal z) : x.Equal z := by
  obtain ⟨hx, hy, hvalue⟩ | ⟨hexponent, hfraction, rfl⟩ := h
  · obtain ⟨-, hz, hvalue'⟩ | ⟨hexponent, -, -⟩ := h'
    · exact .inl ⟨hx, hz, hvalue.trans hvalue'⟩
    · exact absurd hexponent hy
  · exact h'

/-- Only a NaN is not equal to itself. -/
theorem equal_self_iff : x.Equal x ↔ x.isNaN = false := by
  rw [Bool.eq_false_iff, Ne, isNaN_iff, Equal]
  by_cases hexponent : x.exponentBits = 2047 <;> simp [hexponent]

end FormulaCompiler.Binary64
