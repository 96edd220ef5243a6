import FormulaCompiler.Proofs.Binary64.Rank
import FormulaCompiler.Proofs.Numerals

/-!
# Reading the text of a double

The text of a double that is no NaN reads back as the same double (`ofText?_text`). The shortest decimal of
a rank is searched among those that round to the rank, and where the search finds none it is the exact
value, which rounds to the rank as well; positional notation keeps every digit.
-/

namespace FormulaCompiler

namespace Decimal

/-! ### Shortest decimals -/

theorem nearestRank_exact (rank : Nat) : (exact (Binary64.unitsOfRank rank)).nearestRank = rank := by
  have hup : (-1074 : Int).toNat = 0 := rfl
  have hdown : (- (-1074 : Int)).toNat = 1074 := rfl
  rw [nearestRank, exact, hup, hdown]
  apply Binary64.nearestRank_of_units
  · generalize 1074 = k
    exact Nat.pow_pos (by decide)
  · delta Binary64.unitsOfOne
    generalize 1074 = k
    show _ * 5 ^ k * 1 * 2 ^ k = _ * 10 ^ k
    rw [Nat.mul_one, Nat.mul_assoc, ← Nat.mul_pow]

theorem nearestRank_of_onGrid? {rank units : Nat} {exponent : Int} {d : Decimal}
    (h : onGrid? rank units exponent = some d) : d.nearestRank = rank := by
  have hfound := List.find?_some h
  exact eq_of_beq hfound

/-- The shortest decimal of a rank is rounded to it. -/
theorem nearestRank_shortest (rank : Nat) : (shortest rank).nearestRank = rank := by
  unfold shortest
  split
  · rename_i hzero
    rw [hzero, nearestRank, Nat.zero_mul]
    apply Binary64.nearestRank_of_units (Nat.pow_pos (by decide))
    rw [Nat.zero_mul]
    exact (Nat.zero_mul _).symm
  · dsimp only
    cases hfound : (List.range 18).findSome? fun (n : Nat) =>
        onGrid? rank (Binary64.unitsOfRank rank) (leadingPlace (Binary64.unitsOfRank rank) - n) with
    | none => exact nearestRank_exact rank
    | some d =>
        obtain ⟨n, -, hd⟩ := List.exists_of_findSome?_eq_some hfound
        exact nearestRank_of_onGrid? hd

theorem isNaN_of_toBinary64? {d : Decimal} {x : Binary64} (h : d.toBinary64? = some x) : x.isNaN = false := by
  rw [toBinary64?] at h
  split at h
  · rename_i hrank
    rw [← Option.some.inj h, Binary64.isNaN, Binary64.rank_ofRank (Nat.lt_trans hrank (by decide))]
    exact decide_eq_false (Nat.lt_asymm hrank)
  · contradiction

/-! ### Positional notation -/

/-- The decimal that a text without a sign denotes. -/
def ofText? (text : List Char) : Option Decimal :=
  let whole := text.takeWhile Char.isDigit
  match text.dropWhile Char.isDigit with
  | [] => if whole = [] then none else some (ofDigits whole [])
  | '.' :: places =>
      if whole = [] ∨ places = [] ∨ ¬ places.all Char.isDigit then none else some (ofDigits whole places)
  | _ => none

theorem ofText?_of_whole {whole : List Char} (hwhole : whole.all Char.isDigit = true) (hne : whole ≠ []) :
    ofText? whole = some (ofDigits whole []) := by
  rw [List.all_eq_true] at hwhole
  have htake : (whole ++ []).takeWhile Char.isDigit = whole ++ [] := List.takeWhile_append_of_pos hwhole
  have hdrop : (whole ++ []).dropWhile Char.isDigit = [] := List.dropWhile_append_of_pos hwhole
  rw [List.append_nil] at htake hdrop
  rw [ofText?, htake, hdrop]
  exact if_neg hne

theorem ofText?_of_point {whole places : List Char} (hwhole : whole.all Char.isDigit = true) (hne : whole ≠ [])
    (hplaces : places.all Char.isDigit = true) (hne' : places ≠ []) :
    ofText? (whole ++ '.' :: places) = some (ofDigits whole places) := by
  rw [List.all_eq_true] at hwhole
  rw [ofText?, List.takeWhile_append_of_pos hwhole, List.dropWhile_append_of_pos hwhole,
    List.takeWhile_cons_of_neg (by decide), List.dropWhile_cons_of_neg (by decide), List.append_nil]
  exact if_neg (by simp [hne, hne', hplaces])

/-- Positional notation reads back as the same decimal, or as the whole number that it is. -/
theorem ofText?_text (d : Decimal) :
    ∃ read, ofText? d.text.toList = some read ∧ read.nearestRank = d.nearestRank := by
  rw [text]
  by_cases hexponent : 0 ≤ d.exponent
  · rw [if_pos hexponent, Nat.toString_eq_repr, Nat.toList_repr]
    refine ⟨_, ofText?_of_whole (all_isDigit_toDigits _) Nat.toDigits_ne_nil, ?_⟩
    have hzero : (-d.exponent).toNat = 0 := Int.toNat_of_nonpos (by omega)
    rw [nearestRank, nearestRank, ofDigits, List.append_nil, digitsValue_toDigits, hzero]
    exact congrArg (Binary64.nearestRank · 1) (Nat.mul_one _)
  · rw [if_neg hexponent]
    have hplaces : 0 < (-d.exponent).toNat := by omega
    have hback : -((-d.exponent).toNat : Int) = d.exponent := by omega
    generalize (-d.exponent).toNat = places at hplaces hback
    have hpower : 0 < Nat.pow 10 places := Nat.pow_pos (by decide)
    have hlength : (padded places (d.digits % Nat.pow 10 places)).toList.length = places :=
      length_padded hplaces (Nat.mod_lt _ hpower)
    have hread : ofDigits (Nat.toDigits 10 (d.digits / Nat.pow 10 places))
        (padded places (d.digits % Nat.pow 10 places)).toList = d := by
      rw [ofDigits, digitsValue_append, digitsValue_toDigits, digitsValue_padded, hlength, hback,
        Nat.div_add_mod']
    dsimp only
    rw [String.toList_append, String.toList_append, Nat.toString_eq_repr, Nat.toList_repr,
      List.append_assoc]
    have hne : (padded places (d.digits % Nat.pow 10 places)).toList ≠ [] := by
      apply List.ne_nil_of_length_pos
      rw [hlength]
      exact hplaces
    show ∃ read, ofText? (Nat.toDigits 10 _ ++ '.' :: (padded places _).toList) = some read ∧ _
    rw [ofText?_of_point (all_isDigit_toDigits _) Nat.toDigits_ne_nil all_isDigit_padded hne, hread]
    exact ⟨d, rfl, rfl⟩

/-- No decimal is written over more than one line. -/
theorem newline_notMem_of_ofText? {text : List Char} {d : Decimal} (h : ofText? text = some d) : '\n' ∉ text := by
  have hdigits {digits : List Char} (hall : digits.all Char.isDigit = true) : '\n' ∉ digits := by
    intro hmem
    exact absurd (List.all_eq_true.1 hall _ hmem) (by decide)
  rw [← List.takeWhile_append_dropWhile (p := Char.isDigit) (l := text), List.mem_append, not_or]
  refine ⟨hdigits List.all_takeWhile, ?_⟩
  unfold ofText? at h
  dsimp only at h
  split at h
  · rename_i hdrop
    rw [hdrop]
    exact List.not_mem_nil
  · rename_i places hdrop
    rw [hdrop, List.mem_cons, not_or]
    split at h
    · contradiction
    · rename_i hplaces
      simp only [not_or, Decidable.not_not] at hplaces
      exact ⟨by decide, hdigits hplaces.2.2⟩
  · contradiction

end Decimal

namespace Binary64

/-! ### Signs and infinities -/

/-- The double with a sign and a magnitude that is written without one. -/
def ofMagnitude? (negative : Bool) (text : List Char) : Option Binary64 :=
  if text = ['i', 'n', 'f'] then some (ofRank negative infinityRank)
  else ((Decimal.ofText? text).bind Decimal.toBinary64?).map fun magnitude => ofRank negative magnitude.rank

/-- The double that a text denotes. No text denotes a NaN. -/
def ofText? : List Char → Option Binary64
  | '-' :: text => ofMagnitude? true text
  | text => ofMagnitude? false text

variable {x : Binary64}

theorem ofMagnitude?_shortest (negative : Bool) (hfinite : x.isFinite = true) :
    ofMagnitude? negative (Decimal.shortest x.rank).text.toList = some (ofRank negative x.rank) := by
  obtain ⟨read, hread, hrank⟩ := Decimal.ofText?_text (Decimal.shortest x.rank)
  rw [Decimal.nearestRank_shortest] at hrank
  have hne : (Decimal.shortest x.rank).text.toList ≠ ['i', 'n', 'f'] := by
    intro heq
    rw [heq] at hread
    cases hread
  have hdouble : read.toBinary64? = some (ofRank false x.rank) := by
    rw [Decimal.toBinary64?, hrank, if_pos (of_decide_eq_true hfinite)]
  rw [ofMagnitude?, if_neg hne, hread, Option.bind_some, hdouble, Option.map_some,
    rank_ofRank x.rank_lt_signPlace]

theorem ofText?_of_magnitude {text : List Char} (h : ofMagnitude? false text = some x) : ofText? text = some x := by
  unfold ofText?
  split
  · -- No magnitude begins with a minus sign.
    cases h
  · exact h

/-- **The text of a double reads back as the double.** -/
theorem ofText?_text (hnumber : x.isNaN = false) : ofText? x.text.toList = some x := by
  have hmagnitude : ofMagnitude? x.isNegative
      (if x.isFinite then (Decimal.shortest x.rank).text else "inf").toList = some x := by
    by_cases hfinite : x.isFinite = true
    · rw [if_pos hfinite, ofMagnitude?_shortest _ hfinite, ofRank_rank]
    · have hrank : x.rank = infinityRank := by
        simp only [isNaN, isFinite, decide_eq_true_eq, decide_eq_false_iff_not] at hnumber hfinite
        omega
      have hinfinity : ofMagnitude? x.isNegative "inf".toList = some (ofRank x.isNegative infinityRank) := rfl
      rw [if_neg hfinite, hinfinity, ← hrank, ofRank_rank]
  rw [text, hnumber, if_neg Bool.false_ne_true, String.toList_append]
  cases hsign : x.isNegative with
  | true =>
      rw [hsign] at hmagnitude
      exact hmagnitude
  | false =>
      rw [hsign] at hmagnitude
      exact ofText?_of_magnitude hmagnitude

/-- The text of a number takes one line. -/
theorem newline_notMem_text (hnumber : x.isNaN = false) : '\n' ∉ x.text.toList := by
  have hmagnitude {negative : Bool} {text : List Char} (h : ofMagnitude? negative text = some x) : '\n' ∉ text := by
    unfold ofMagnitude? at h
    split at h
    · rename_i hinfinity
      rw [hinfinity]
      decide
    · rw [Option.map_eq_some_iff] at h
      obtain ⟨magnitude, h, -⟩ := h
      rw [Option.bind_eq_some_iff] at h
      obtain ⟨d, hread, -⟩ := h
      exact Decimal.newline_notMem_of_ofText? hread
  have hread := ofText?_text hnumber
  unfold ofText? at hread
  split at hread
  · rename_i htext
    rw [htext, List.mem_cons, not_or]
    exact ⟨by decide, hmagnitude hread⟩
  · exact hmagnitude hread

end Binary64

end FormulaCompiler
