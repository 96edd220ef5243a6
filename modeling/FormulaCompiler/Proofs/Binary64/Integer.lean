import FormulaCompiler.Node
import FormulaCompiler.Proofs.Binary64.Value

/-!
# Integers of 32 bits

A number has the integer kind just if it is finite and its exact value is an integer that a signed word of 32 bits can
hold (`of_eq_integer_iff`). Such an integer is written with its decimal digits alone, since no shorter decimal is
rounded to it (`text_of_isWord`).
-/

namespace FormulaCompiler

/-- The integers that a signed word of 32 bits can hold. -/
def IsWord (i : ℤ) : Prop := -2 ^ 31 ≤ i ∧ i ≤ 2 ^ 31 - 1

instance (i : ℤ) : Decidable (IsWord i) := inferInstanceAs (Decidable (_ ∧ _))

theorem IsWord.natAbs_le {i : ℤ} (h : IsWord i) : i.natAbs ≤ 2 ^ 31 := by
  obtain ⟨hlow, hhigh⟩ := h
  omega

namespace Binary64

variable {x : Binary64} {i : ℤ} {n rank : Nat}

/-! ### Whole numbers -/

/-- A whole number of at most 53 bits is the number of a rank. -/
theorem exists_rank_of_lt (h : n < 2 ^ 53) : ∃ rank < infinityRank, unitsOfRank rank = n * unitsOfOne := by
  by_cases hzero : n = 0
  · refine ⟨0, by decide, ?_⟩
    rw [hzero, Nat.zero_mul]
    exact unitsOfRank_low (by decide)
  · have hlog : n.log2 ≤ 52 := Nat.le_of_lt_succ ((Nat.log2_lt hzero).2 h)
    have hlow : 2 ^ 52 ≤ n * 2 ^ (52 - n.log2) := by
      calc 2 ^ 52
        _ = 2 ^ n.log2 * 2 ^ (52 - n.log2) := by rw [← Nat.pow_add, Nat.add_sub_cancel' hlog]
        _ ≤ n * 2 ^ (52 - n.log2) := Nat.mul_le_mul_right _ (Nat.log2_self_le hzero)
    have hhigh : n * 2 ^ (52 - n.log2) < 2 ^ 53 := by
      calc n * 2 ^ (52 - n.log2)
        _ < 2 ^ (n.log2 + 1) * 2 ^ (52 - n.log2) := (Nat.mul_lt_mul_right (Nat.two_pow_pos _)).2 Nat.lt_log2_self
        _ = 2 ^ 53 := by
          rw [← Nat.pow_add]
          congr 1
          omega
    refine ⟨(1022 + n.log2) * ranksPerPower + n * 2 ^ (52 - n.log2), ?_, ?_⟩
    · simp only [infinityRank, ranksPerPower]
      omega
    · have hone {power : Nat} (hpower : 1074 = power) : 2 ^ power = unitsOfOne := by
        delta unitsOfOne
        generalize 1074 = shift at hpower ⊢
        rw [hpower, Nat.pow_eq]
      rw [unitsOfRank_shifted (Nat.le_of_lt hhigh) (.inr hlow), Nat.mul_assoc, Nat.pow_eq, ← Nat.pow_add]
      exact congrArg (n * ·) (hone (by omega))

/-- Rounding leaves such a whole number as it is. -/
theorem unitsOfRank_nearestRank (h : n < 2 ^ 53) :
    nearestRank n 1 < infinityRank ∧ unitsOfRank (nearestRank n 1) = n * unitsOfOne := by
  obtain ⟨rank, hrank, hunits⟩ := exists_rank_of_lt h
  have hnearest : nearestRank n 1 = rank := nearestRank_of_units Nat.one_pos (by rw [hunits, Nat.mul_one])
  rw [hnearest]
  exact ⟨hrank, hunits⟩

theorem isNegative_ofRank (negative : Bool) (h : rank < signPlace) : (ofRank negative rank).isNegative = negative := by
  rw [isNegative, toNat_bits_ofRank h]
  cases negative with
  | false => exact decide_eq_false (by simpa using h)
  | true => exact decide_eq_true (Nat.le_add_right signPlace rank)

theorem isFinite_and_signedUnits_ofInt (h : i.natAbs < 2 ^ 53) :
    (ofInt i).isFinite = true ∧ (ofInt i).signedUnits = i * unitsOfOne := by
  obtain ⟨hrank, hunits⟩ := unitsOfRank_nearestRank h
  have hplace : nearestRank i.natAbs 1 < signPlace := Nat.lt_trans hrank (by decide)
  rw [ofInt, Nat.min_eq_left (Nat.le_of_lt hrank)]
  constructor
  · rw [isFinite, rank_ofRank hplace]
    exact decide_eq_true hrank
  · rw [signedUnits, isNegative_ofRank _ hplace, units, rank_ofRank hplace, hunits, Nat.cast_mul]
    by_cases hsign : i < 0
    · rw [if_pos (decide_eq_true hsign), ← Int.neg_mul]
      congr 1
      omega
    · rw [if_neg (by simpa using hsign)]
      congr 1
      omega

/-! ### Kinds -/

theorem truncateToWord_mem (x : Binary64) : IsWord x.truncateToWord := by
  rw [truncateToWord, IsWord]
  omega

/-- Where the value is an integer, the magnitude is, and the sign is its sign. -/
theorem units_of_signedUnits (h : x.signedUnits = i * unitsOfOne) :
    x.units = i.natAbs * unitsOfOne ∧ (i ≠ 0 → x.isNegative = decide (i < 0)) := by
  have hone : (0 : ℤ) < unitsOfOne := Int.natCast_pos.2 unitsOfOne_pos
  rw [signedUnits] at h
  constructor
  · have habs := congrArg Int.natAbs h
    rw [Int.natAbs_mul, Int.natAbs_natCast] at habs
    rw [← habs]
    split <;> omega
  · intro hne
    split at h
    · rename_i hsign
      have hle : i ≤ 0 := Int.nonpos_of_mul_nonpos_left (by omega) hone
      rw [hsign, decide_eq_true (by omega)]
    · rename_i hsign
      have hle : 0 ≤ i := Int.nonneg_of_mul_nonneg_left (by omega) hone
      rw [Bool.eq_false_iff.2 hsign, decide_eq_false (by omega)]

theorem truncateToWord_of_signedUnits (hword : IsWord i) (h : x.signedUnits = i * unitsOfOne) :
    x.truncateToWord = i := by
  obtain ⟨hunits, hsign⟩ := units_of_signedUnits h
  obtain ⟨hlow, hhigh⟩ := hword
  have hwhole : (x.units : ℤ) / unitsOfOne = i.natAbs := by
    rw [hunits, Nat.cast_mul]
    exact Int.mul_ediv_cancel _ (Int.natCast_ne_zero.2 (Nat.ne_of_gt unitsOfOne_pos))
  rw [truncateToWord, hwhole]
  by_cases hzero : i = 0
  · rw [hzero]
    split <;> rfl
  · simp only [hsign hzero, decide_eq_true_eq]
    split <;> omega

end Binary64

open Binary64 in
theorem NumberKind.of_eq_integer_iff {x : Binary64} :
    NumberKind.of x = .integer ↔ x.isFinite = true ∧ ∃ i : ℤ, IsWord i ∧ x.value = i := by
  have hkind : NumberKind.of x = .integer ↔ x.isFinite = true ∧ (ofInt x.truncateToWord == x) = true := by
    rw [NumberKind.of, ← Bool.and_eq_true]
    split <;> simp_all
  rw [hkind, and_congr_right_iff]
  intro hfinite
  have hbound {i : ℤ} (hword : IsWord i) : i.natAbs < 2 ^ 53 := Nat.lt_of_le_of_lt hword.natAbs_le (by decide)
  constructor
  · intro hsame
    have hword := x.truncateToWord_mem
    obtain ⟨hofInt, hunits⟩ := isFinite_and_signedUnits_ofInt (hbound hword)
    rw [sameNumber_of_signedUnits hofInt hfinite, hunits] at hsame
    exact ⟨x.truncateToWord, hword, value_eq_iff_signedUnits.2 hsame.symm⟩
  · rintro ⟨i, hword, hvalue⟩
    rw [value_eq_iff_signedUnits] at hvalue
    obtain ⟨hofInt, hunits⟩ := isFinite_and_signedUnits_ofInt (hbound hword)
    rw [truncateToWord_of_signedUnits hword hvalue, sameNumber_of_signedUnits hofInt hfinite, hunits, hvalue]

/-- Equal numbers are of one kind. -/
theorem NumberKind.of_eq_of_equal {x y : Binary64} (h : x.Equal y) : NumberKind.of x = NumberKind.of y := by
  have hinteger : NumberKind.of x = .integer ↔ NumberKind.of y = .integer := by
    obtain ⟨hx, hy, hvalue⟩ | ⟨-, -, rfl⟩ := h
    · rw [of_eq_integer_iff, of_eq_integer_iff, Binary64.isFinite_iff.2 hx, Binary64.isFinite_iff.2 hy, hvalue]
    · rfl
  cases hx : NumberKind.of x with
  | integer => rw [hinteger.1 hx]
  | double =>
      cases hy : NumberKind.of y with
      | integer =>
          rw [hinteger.2 hy] at hx
          cases hx
      | double => rfl

/-! ### Digits -/

namespace Decimal

open Binary64 (unitsOfOne unitsOfRank unitsOfRank_nearestRank unitsOfOne_pos)

variable {n : Nat} {d : Decimal}

theorem nearestRank_of_whole (h : 0 ≤ d.exponent) :
    d.nearestRank = Binary64.nearestRank (d.digits * Nat.pow 10 d.exponent.toNat) 1 := by
  have hdown : (-d.exponent).toNat = 0 := Int.toNat_of_nonpos (by omega)
  rw [nearestRank, hdown]

/-- No two whole numbers of at most 53 bits are rounded to one rank. -/
theorem eq_of_nearestRank {m : Nat} (hm : m < 2 ^ 53) (hn : n < 2 ^ 53)
    (h : Binary64.nearestRank m 1 = Binary64.nearestRank n 1) : m = n := by
  have hunits := (unitsOfRank_nearestRank hm).2
  rw [h, (unitsOfRank_nearestRank hn).2] at hunits
  exact Nat.eq_of_mul_eq_mul_right unitsOfOne_pos hunits.symm

/-- What is found for an integer on a grid of tens is the integer: its neighbours are integers as well, and not so large
that they would be rounded. -/
theorem eq_of_onGrid? {place : Nat} (hn : n ≤ 2 ^ 31) (hplace : place ≤ 10)
    (h : onGrid? (Binary64.nearestRank n 1) (n * unitsOfOne) place = some d) :
    0 ≤ d.exponent ∧ d.digits * Nat.pow 10 d.exponent.toNat = n := by
  have hup : (place : ℤ).toNat = place := Int.toNat_natCast place
  have hdown : (-(place : ℤ)).toNat = 0 := Int.toNat_of_nonpos (by omega)
  have hquotient : n * unitsOfOne * Nat.pow 10 0 / (unitsOfOne * Nat.pow 10 place) = n / 10 ^ place := by
    show n * unitsOfOne * 1 / _ = _
    rw [Nat.mul_one, Nat.mul_comm n, Nat.mul_div_mul_left _ _ unitsOfOne_pos, Nat.pow_eq]
  have hpower : 10 ^ place ≤ 10 ^ 10 := Nat.pow_le_pow_right (by decide) hplace
  have hbelow : n / 10 ^ place * 10 ^ place ≤ n := Nat.div_mul_le_self n _
  have hrank := List.find?_some h
  rw [beq_iff_eq] at hrank
  have hmem : d = ⟨n / 10 ^ place, place⟩ ∨ d = ⟨n / 10 ^ place + 1, place⟩ := by
    have hmem := List.mem_of_find?_eq_some h
    rw [hup, hdown, hquotient] at hmem
    split at hmem <;> simp only [List.mem_cons, List.not_mem_nil, or_false] at hmem
    · exact hmem
    · exact hmem.symm
  have hexponent : d.exponent = place := by obtain rfl | rfl := hmem <;> rfl
  have hnonneg : 0 ≤ d.exponent := by omega
  refine ⟨hnonneg, ?_⟩
  rw [nearestRank_of_whole hnonneg, hexponent, hup] at hrank
  rw [hexponent, hup]
  -- Both are integers of at most 53 bits, which are not rounded to one rank unless they are the same.
  apply eq_of_nearestRank _ (by omega) hrank
  obtain rfl | rfl := hmem
  · show n / 10 ^ place * 10 ^ place < _
    omega
  · show (n / 10 ^ place + 1) * 10 ^ place < _
    rw [Nat.add_mul]
    omega

theorem onGrid?_ones (n : Nat) : onGrid? (Binary64.nearestRank n 1) (n * unitsOfOne) 0 = some ⟨n, 0⟩ := by
  have hone : Nat.pow 10 0 = 1 := rfl
  rw [onGrid?]
  simp only [Int.neg_zero, Int.toNat_zero, hone, Nat.mul_one, Nat.mul_div_cancel _ unitsOfOne_pos, Nat.mul_mod_left,
    Nat.mul_zero, unitsOfOne_pos, if_true]
  apply List.find?_cons_of_pos
  rw [beq_iff_eq, nearestRank_of_whole (Int.le_refl 0)]
  exact congrArg (Binary64.nearestRank · 1) (Nat.mul_one n)

/-- What is found first in a range comes before all else that is found there. -/
theorem exists_of_findSome?_range {α : Type} {find : Nat → Option α} {found : α} {count : Nat}
    (h : (List.range count).findSome? find = some found) :
    ∃ k < count, find k = some found ∧ ∀ j < k, find j = none := by
  induction count with
  | zero => cases h
  | succ count ih =>
      rw [List.range_succ, List.findSome?_append, Option.or_eq_some_iff] at h
      obtain h | ⟨hnone, h⟩ := h
      · obtain ⟨k, hk, hfound⟩ := ih h
        exact ⟨k, Nat.lt_succ_of_lt hk, hfound⟩
      · refine ⟨count, Nat.lt_succ_self count, by simpa using h, fun j hj => ?_⟩
        rw [List.findSome?_eq_none_iff] at hnone
        exact hnone j (List.mem_range.2 hj)

/-- The shortest decimal of an integer is the integer, perhaps with fewer digits and a positive exponent. -/
theorem shortest_of_whole (hn : n ≤ 2 ^ 31) (h : shortest (Binary64.nearestRank n 1) = d) :
    0 ≤ d.exponent ∧ d.digits * Nat.pow 10 d.exponent.toNat = n := by
  have hunits := (unitsOfRank_nearestRank (Nat.lt_of_le_of_lt hn (by decide))).2
  rw [shortest] at h
  split at h
  · rename_i hzero
    rw [hzero, Binary64.unitsOfRank_low (by decide)] at hunits
    have hn : n = 0 := by
      apply Nat.eq_of_mul_eq_mul_right unitsOfOne_pos
      rw [← hunits, Nat.zero_mul]
    rw [← h, hn]
    decide
  · rename_i hne
    have hpos : 0 < n := by
      apply Nat.pos_of_ne_zero
      rintro rfl
      apply hne
      apply Binary64.nearestRank_of_units Nat.one_pos
      rw [Binary64.unitsOfRank_low (by decide), Nat.zero_mul, Nat.zero_mul]
    have hplace : leadingPlace (n * unitsOfOne) = (toString n).length := by
      rw [leadingPlace, if_pos (Nat.le_mul_of_pos_left _ hpos), Nat.mul_div_cancel _ unitsOfOne_pos]
    have hlength : (toString n).length ≤ 10 := by
      rw [Nat.toString_eq_repr, ← String.length_toList, Nat.toList_repr]
      exact (Nat.length_toDigits_le_iff (by decide) (by decide)).2 (Nat.lt_of_le_of_lt hn (by decide))
    dsimp only at h
    rw [hunits, hplace] at h
    generalize (toString n).length = place at hlength h
    -- The grid of ones is tried after as many others as there are digits, and has the integer on it.
    cases hfound : (List.range 18).findSome? fun (k : Nat) =>
        onGrid? (Binary64.nearestRank n 1) (n * unitsOfOne) ((place : ℤ) - k) with
    | none =>
        have hones := List.findSome?_eq_none_iff.1 hfound place (List.mem_range.2 (by omega))
        rw [Int.sub_self, onGrid?_ones] at hones
        cases hones
    | some found =>
        obtain ⟨k, -, hk, hfirst⟩ := exists_of_findSome?_range hfound
        -- So the search is over by then, on a grid of tens.
        have hle : k ≤ place := by
          by_contra hlt
          have hones := hfirst place (Nat.lt_of_not_le hlt)
          rw [Int.sub_self, onGrid?_ones] at hones
          cases hones
        rw [hfound, Option.getD_some] at h
        rw [← Int.ofNat_sub hle, h] at hk
        exact eq_of_onGrid? hn (by omega) hk

theorem text_shortest (hn : n ≤ 2 ^ 31) : (shortest (Binary64.nearestRank n 1)).text = toString n := by
  obtain ⟨hexponent, hdigits⟩ := shortest_of_whole hn rfl
  rw [text, if_pos hexponent, hdigits]

end Decimal

/-- The number is written with a minus sign also if it is the negative zero. -/
theorem Binary64.text_of_isWord {x : Binary64} {i : ℤ} (hfinite : x.isFinite = true) (hword : IsWord i)
    (hvalue : x.value = i) : x.text = if i = 0 ∧ x.isNegative = true then "-0" else toString i := by
  obtain ⟨hunits, hsign⟩ := units_of_signedUnits (value_eq_iff_signedUnits.1 hvalue)
  have hbound : i.natAbs < 2 ^ 53 := Nat.lt_of_le_of_lt hword.natAbs_le (by decide)
  have hrank : x.rank = nearestRank i.natAbs 1 := by
    apply unitsOfRank_injective
    rw [(unitsOfRank_nearestRank hbound).2]
    exact hunits
  rw [text, isNaN_of_isFinite hfinite, if_neg Bool.false_ne_true, if_pos hfinite, hrank,
    Decimal.text_shortest hword.natAbs_le]
  by_cases hzero : i = 0
  · rw [hzero]
    cases x.isNegative <;> rfl
  · rw [hsign hzero, if_neg (fun h : i = 0 ∧ _ => hzero h.1)]
    have hrepr : toString i = if 0 ≤ i then i.toNat.repr else "-" ++ (-i).toNat.repr := Int.repr_eq_if
    rw [hrepr, Nat.toString_eq_repr]
    by_cases hneg : i < 0
    · have habs : i.natAbs = (-i).toNat := by omega
      rw [decide_eq_true hneg, if_pos rfl, if_neg (Int.not_le.2 hneg), habs]
    · have habs : i.natAbs = i.toNat := by omega
      rw [decide_eq_false hneg, if_neg Bool.false_ne_true, if_pos (Int.not_lt.1 hneg), habs, String.empty_append]

end FormulaCompiler
