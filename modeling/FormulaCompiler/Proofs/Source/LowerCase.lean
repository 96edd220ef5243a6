import Mathlib
import FormulaCompiler.Proofs.Source

/-!
# Sources in lower case

Putting the ASCII letters of a source in lower case does the same to the lines that are read from it, and makes no
difference to whether they can be read (`reading_lowered`). In UTF-8 an ASCII letter is a byte of its own, which no
other character has in it, so that bytes can be changed in place of characters (`encoded_lowered`).
-/

namespace FormulaCompiler

/-! ### Characters -/

/-- Lower case changes nothing but letters. -/
theorem toLower_eq_or (c : Char) : c.toLower = c ∨ c.isAlpha = true ∧ c.toLower.isAlpha = true := by
  cases hupper : c.isUpper with
  | false => exact .inl (Char.toLower_eq_of_not_isUpper (by rw [hupper]; exact Bool.false_ne_true))
  | true =>
      have halpha : c.isAlpha = true := by rw [Char.isAlpha, hupper, Bool.true_or]
      exact .inr ⟨halpha, (Char.isAlpha_toLower_eq_isAlpha c).trans halpha⟩

/-- A character that is no letter is recognized in lower case and out of it. -/
theorem toLower_eq_iff {c d : Char} (hd : d.isAlpha = false) : c.toLower = d ↔ c = d := by
  rcases toLower_eq_or c with hsame | ⟨halpha, hlower⟩
  · rw [hsame]
  · constructor
    · rintro rfl
      exact absurd hlower (by rw [hd]; exact Bool.false_ne_true)
    · rintro rfl
      exact absurd halpha (by rw [hd]; exact Bool.false_ne_true)

theorem toNat_toLower (c : Char) :
    c.toLower.toNat = if 65 ≤ c.toNat ∧ c.toNat ≤ 90 then c.toNat + 32 else c.toNat := by
  have hupper : c.isUpper = decide (65 ≤ c.toNat ∧ c.toNat ≤ 90) := by
    simp [Char.isUpper, UInt32.le_iff_toNat_le]
  by_cases hletter : 65 ≤ c.toNat ∧ c.toNat ≤ 90
  · rw [Char.toLower_eq_of_isUpper (hupper.trans (decide_eq_true hletter)), Char.toNat_ofNat, if_pos hletter, if_pos]
    exact .inl (by omega)
  · rw [Char.toLower_eq_of_not_isUpper, if_neg hletter]
    rw [hupper, decide_eq_false hletter]
    exact Bool.false_ne_true

/-! ### Bytes -/

/-- A byte, in lower case if it is an ASCII letter. -/
def lowerByte (byte : UInt8) : UInt8 := if 0x41 ≤ byte ∧ byte ≤ 0x5a then byte + 0x20 else byte

theorem toNat_lowerByte (byte : UInt8) :
    (lowerByte byte).toNat = if 65 ≤ byte.toNat ∧ byte.toNat ≤ 90 then byte.toNat + 32 else byte.toNat := by
  have hletter : (0x41 ≤ byte ∧ byte ≤ 0x5a) ↔ (65 ≤ byte.toNat ∧ byte.toNat ≤ 90) := by
    rw [UInt8.le_iff_toNat_le, UInt8.le_iff_toNat_le]
    rfl
  rw [lowerByte, apply_ite UInt8.toNat, UInt8.toNat_add]
  by_cases h : 65 ≤ byte.toNat ∧ byte.toNat ≤ 90
  · rw [if_pos (hletter.2 h), if_pos h]
    exact Nat.mod_eq_of_lt (by have := h.2; change byte.toNat + 32 < 256; omega)
  · rw [if_neg (mt hletter.1 h), if_neg h]

/-- The bytes of a character outside ASCII lie outside ASCII. -/
theorem le_of_mem_utf8EncodeChar {c : Char} (hc : 128 ≤ c.toNat) {byte : UInt8} (h : byte ∈ String.utf8EncodeChar c) :
    128 ≤ byte.toNat := by
  have hbyte {n : Nat} (hlow : 128 ≤ n) (hhigh : n < 256) : 128 ≤ (UInt8.ofNat n).toNat := by
    rw [UInt8.toNat_ofNat_of_lt' hhigh]
    exact hlow
  have hvalue : ¬ c.val.toNat ≤ 127 := Nat.not_le.2 hc
  unfold String.utf8EncodeChar at h
  simp only [if_neg hvalue] at h
  repeat' split at h
  all_goals simp only [List.mem_cons, List.not_mem_nil, or_false] at h
  · rcases h with rfl | rfl <;> exact hbyte (by omega) (by omega)
  · rcases h with rfl | rfl | rfl <;> exact hbyte (by omega) (by omega)
  · rcases h with rfl | rfl | rfl | rfl <;> exact hbyte (by omega) (by omega)

theorem utf8EncodeChar_of_ascii {c : Char} (hc : c.toNat < 128) : String.utf8EncodeChar c = [UInt8.ofNat c.toNat] := by
  have hle : c.val.toNat ≤ 0x7f := Nat.le_of_lt_succ hc
  unfold String.utf8EncodeChar
  exact if_pos hle

theorem toNat_of_ascii {n : Nat} (hn : n < 128) : (UInt8.ofNat n).toNat = n :=
  UInt8.toNat_ofNat_of_lt' (Nat.lt_trans hn (by decide))

theorem lowerByte_of_le {byte : UInt8} (h : 128 ≤ (lowerByte byte).toNat) : lowerByte byte = byte := by
  have hletter : ¬ (65 ≤ byte.toNat ∧ byte.toNat ≤ 90) := by
    intro hletter
    rw [toNat_lowerByte, if_pos hletter] at h
    omega
  rw [← UInt8.toNat_inj, toNat_lowerByte, if_neg hletter]

theorem utf8EncodeChar_toLower (c : Char) :
    String.utf8EncodeChar c.toLower = (String.utf8EncodeChar c).map lowerByte := by
  by_cases hc : c.toNat < 128
  · have hlower : c.toLower.toNat < 128 := by
      rw [toNat_toLower]
      split <;> omega
    rw [utf8EncodeChar_of_ascii hc, utf8EncodeChar_of_ascii hlower, List.map_singleton, List.singleton_inj,
      ← UInt8.toNat_inj, toNat_lowerByte, toNat_of_ascii hc, toNat_of_ascii hlower, toNat_toLower]
  · have hlower : c.toLower = c := by
      rw [← Char.toNat_inj, toNat_toLower, if_neg (by omega)]
    have hbytes : ∀ byte ∈ String.utf8EncodeChar c, lowerByte byte = byte := by
      intro byte hmem
      have hle := le_of_mem_utf8EncodeChar (Nat.not_lt.1 hc) hmem
      rw [← UInt8.toNat_inj, toNat_lowerByte, if_neg (by omega)]
    rw [hlower, List.map_congr_left hbytes, List.map_id']

namespace Source

theorem encoded_lowered (chars : List Char) : encoded (chars.map Char.toLower) = (encoded chars).map lowerByte := by
  rw [encoded, encoded, List.flatMap_map, List.map_flatMap]
  exact List.flatMap_congr fun c _ => utf8EncodeChar_toLower c

/-- Bytes that are a text in lower case are a text. -/
theorem exists_encoded {bytes : List UInt8} {chars : List Char} (h : bytes.map lowerByte = encoded chars) :
    ∃ chars', bytes = encoded chars' := by
  induction chars generalizing bytes with
  | nil =>
      refine ⟨[], ?_⟩
      exact List.map_eq_nil_iff.1 h
  | cons c chars ih =>
      obtain ⟨front, rest, rfl, hfront, hrest⟩ := List.map_eq_append_iff.1 h
      obtain ⟨others, rfl⟩ := ih hrest
      suffices ∃ c', front = String.utf8EncodeChar c' by
        obtain ⟨c', rfl⟩ := this
        exact ⟨c' :: others, rfl⟩
      by_cases hc : c.toNat < 128
      · rw [utf8EncodeChar_of_ascii hc] at hfront
        obtain ⟨byte, rfl, hbyte⟩ := List.map_eq_singleton_iff.1 hfront
        have hlower : (lowerByte byte).toNat = c.toNat := by rw [hbyte, toNat_of_ascii hc]
        have hascii : byte.toNat < 128 := by
          rw [toNat_lowerByte] at hlower
          split at hlower <;> omega
        have hvalue : (Char.ofNat byte.toNat).toNat = byte.toNat := by
          rw [Char.toNat_ofNat, if_pos (.inl (by omega))]
        refine ⟨Char.ofNat byte.toNat, ?_⟩
        rw [utf8EncodeChar_of_ascii (by rw [hvalue]; exact hascii), hvalue, UInt8.ofNat_toNat]
      · refine ⟨c, ?_⟩
        have hfixed : ∀ byte ∈ front, lowerByte byte = byte := by
          intro byte hmem
          apply lowerByte_of_le
          apply le_of_mem_utf8EncodeChar (Nat.not_lt.1 hc)
          rw [← hfront]
          exact List.mem_map_of_mem hmem
        rw [← hfront, List.map_congr_left hfixed, List.map_id']

end Source

/-! ### Lines -/

/-- What has been read, in lower case. -/
def Reading.lowered (r : Reading) : Reading := { r with lines := r.lines.map (String.map Char.toLower) }

theorem Reading.chars_lowered (r : Reading) : r.lowered.chars = r.chars.map Char.toLower := by
  rw [chars, chars, lowered, List.flatMap_map, List.map_flatMap]
  apply List.flatMap_congr
  intro line _
  rw [String.toList_map, List.map_append]
  rfl

namespace Source

/-- A source with its ASCII letters in lower case. -/
def lowered (s : Source) : Source := { s with bytes := ⟨s.bytes.data.map lowerByte⟩ }

theorem trimmed_lowered (chars : List Char) :
    trimmed (String.ofList (chars.map Char.toLower)) = (trimmed (String.ofList chars)).map Char.toLower := by
  have hbreak : (fun c : Char => decide (c = '\r') || decide (c = '\n')) ∘ Char.toLower =
      fun c => decide (c = '\r') || decide (c = '\n') := by
    funext c
    rw [Function.comp_apply, decide_eq_decide.2 (toLower_eq_iff (by decide)),
      decide_eq_decide.2 (toLower_eq_iff (by decide))]
  rw [← String.toList_inj, String.toList_map, trimmed, trimmed]
  simp only [String.toList_ofList]
  rw [← List.map_reverse, List.dropWhile_map, List.map_reverse, hbreak]

theorem readLine_lowered (bytes : List UInt8) (later : Reading) :
    readLine (bytes.map lowerByte) later.lowered = (readLine bytes later).lowered := by
  by_cases hdecoded : ∃ chars, bytes = encoded chars
  · obtain ⟨chars, rfl⟩ := hdecoded
    rw [← encoded_lowered, readLine_encoded, readLine_encoded, trimmed_lowered]
    rfl
  · have hnone {bytes : List UInt8} (h : ¬ ∃ chars, bytes = encoded chars) :
        String.fromUTF8? ⟨bytes.toArray⟩ = none := by
      rw [Option.eq_none_iff_forall_ne_some]
      exact fun line hline => h ⟨_, eq_encoded_of_decoded hline⟩
    have hlowered : ¬ ∃ chars, bytes.map lowerByte = encoded chars := fun ⟨_, h⟩ => hdecoded (exists_encoded h)
    rw [readLine, readLine, hnone hdecoded, hnone hlowered]
    rfl

theorem lowerByte_eq_newline {byte : UInt8} : lowerByte byte = 0x0a ↔ byte = 0x0a := by
  have hnewline : (0x0a : UInt8).toNat = 10 := rfl
  rw [← UInt8.toNat_inj, ← UInt8.toNat_inj, toNat_lowerByte, hnewline]
  split <;> omega

theorem pieces_lowered (bytes : List UInt8) :
    pieces (bytes.map lowerByte) = (pieces bytes).map (List.map lowerByte) := by
  induction bytes with
  | nil => rfl
  | cons byte bytes ih =>
      rw [List.map_cons]
      by_cases hbyte : byte = 0x0a
      · rw [lowerByte_eq_newline.2 hbyte, hbyte, pieces_newline, pieces_newline, ih]
        rfl
      · obtain ⟨piece, others, hpieces⟩ := exists_pieces bytes
        rw [hpieces, List.map_cons] at ih
        rw [pieces_cons hbyte hpieces, pieces_cons (mt lowerByte_eq_newline.1 hbyte) ih]
        rfl

theorem readPieces_lowered (failure : Option String) (pieces : List (List UInt8)) :
    readPieces failure (pieces.map (List.map lowerByte)) = (readPieces failure pieces).lowered := by
  induction pieces with
  | nil => rfl
  | cons piece others ih =>
      cases others with
      | nil =>
          cases failure with
          | some message => rfl
          | none =>
              cases piece with
              | nil => rfl
              | cons byte piece => exact readLine_lowered (byte :: piece) ⟨[], none⟩
      | cons next others =>
          change readLine (piece.map lowerByte) (readPieces failure ((next :: others).map (List.map lowerByte))) = _
          rw [ih]
          exact readLine_lowered piece _

/-- **A source in lower case is read in lower case.** -/
theorem reading_lowered (s : Source) : s.lowered.reading = s.reading.lowered := by
  rw [reading, reading, ← readPieces_lowered, ← pieces_lowered, lowered]
  simp only [Array.toList_map]

end Source

end FormulaCompiler
