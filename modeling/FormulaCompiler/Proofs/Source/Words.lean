import FormulaCompiler.Proofs.Source.LineEnds

/-!
# Positions in words of 32 bits

The numbers of a position are words of 32 bits. With arithmetic that fails where a result is no such word, every position
of a source that is not too long is reached without a failure, one character after the other (`across?_delivered`).
-/

namespace FormulaCompiler

/-! ### Checked arithmetic -/

/-- A number, unless it takes more than 32 bits. -/
def word? (n : Nat) : Option Nat := if n < 0x100000000 then some n else none

def addWords? (a b : Nat) : Option Nat := word? (a + b)

def multiplyWords? (a b : Nat) : Option Nat := word? (a * b)

/-- A difference, unless it is negative. -/
def subtractWords? (a b : Nat) : Option Nat := if b ≤ a then some (a - b) else none

variable {a b : Nat} {p : Position} {c : Char} {chars : List Char}

theorem addWords?_eq (h : a + b < 0x100000000) : addWords? a b = some (a + b) := if_pos h

theorem multiplyWords?_eq (h : a * b < 0x100000000) : multiplyWords? a b = some (a * b) := if_pos h

theorem subtractWords?_eq (h : b ≤ a) : subtractWords? a b = some (a - b) := if_pos h

namespace Position

open Source (Fits)

def advance? (p : Position) : Option Position := (addWords? p.column 1).map fun column => { p with column }

def newline? (p : Position) : Option Position := (addWords? p.line 1).map fun line => ⟨line, 1⟩

def tab? (p : Position) : Option Position := do
  let before ← subtractWords? p.column 1
  let stop ← addWords? (before / tabWidth) 1
  let width ← multiplyWords? stop tabWidth
  let column ← addWords? 1 width
  return { p with column }

/-- The position after a character, if all that is computed for it are words. -/
def after? (p : Position) (c : Char) : Option Position :=
  if c = '\n' then p.newline? else if c = '\t' then p.tab? else p.advance?

def across? (p : Position) (chars : List Char) : Option Position := chars.foldlM after? p

/-! ### Positions -/

theorem one_le_column_after (h : 1 ≤ p.column) (c : Char) : 1 ≤ (p.after c).column := by
  obtain hlt | ⟨hline, hcolumn⟩ := lt_iff.1 (lt_after p c)
  · have hbreak : c = '\n' := by
      by_contra hne
      rw [after_line hne] at hlt
      exact Nat.lt_irrefl _ hlt
    rw [hbreak]
    exact Nat.le_refl 1
  · omega

theorem one_le_column_across (h : 1 ≤ p.column) (chars : List Char) : 1 ≤ (p.across chars).column := by
  induction chars generalizing p with
  | nil => exact h
  | cons c chars ih => exact ih (one_le_column_after h c)

theorem back_advance (h : 1 ≤ p.column) : p.advance.back = p := by
  have hcolumn : max 1 (p.column + 1 - 1) = p.column := by omega
  show (⟨p.line, max 1 (p.column + 1 - 1)⟩ : Position) = p
  rw [hcolumn]

theorem advance?_eq (h : Fits p.advance) : p.advance? = some p.advance := by
  rw [advance?, addWords?_eq h.2]
  rfl

theorem tab?_eq (hcolumn : 1 ≤ p.column) (h : Fits p.tab) : p.tab? = some p.tab := by
  have hfits : 1 + ((p.column - 1) / tabWidth + 1) * tabWidth < 0x100000000 := h.2
  have hwidth : 0 < tabWidth := by decide
  have hstop : (p.column - 1) / tabWidth + 1 ≤ ((p.column - 1) / tabWidth + 1) * tabWidth := Nat.le_mul_of_pos_right _ hwidth
  rw [tab?, subtractWords?_eq hcolumn, Option.bind_eq_bind, Option.bind_some, addWords?_eq (by omega)]
  simp only [Option.bind_some]
  rw [multiplyWords?_eq (by omega), Option.bind_some, addWords?_eq hfits]
  rfl

/-- Nothing on the way to a position is larger than the position. -/
theorem after?_eq (hcolumn : 1 ≤ p.column) (h : Fits (p.after c)) : p.after? c = some (p.after c) := by
  rw [after] at h
  rw [after?, after]
  by_cases hbreak : c = '\n'
  · rw [if_pos hbreak] at h
    rw [if_pos hbreak, if_pos hbreak, newline?, addWords?_eq h.1]
    rfl
  · rw [if_neg hbreak] at h
    rw [if_neg hbreak, if_neg hbreak]
    by_cases htab : c = '\t'
    · rw [if_pos htab] at h
      rw [if_pos htab, if_pos htab, tab?_eq hcolumn h]
    · rw [if_neg htab] at h
      rw [if_neg htab, if_neg htab, advance?_eq h]

theorem across?_eq (hcolumn : 1 ≤ p.column) (h : ∀ n, Fits (p.across (chars.take n))) :
    p.across? chars = some (p.across chars) := by
  induction chars generalizing p with
  | nil => rfl
  | cons c chars ih =>
      rw [across?, List.foldlM_cons, after?_eq hcolumn (h 1)]
      exact ih (one_le_column_after hcolumn c) fun n => h (n + 1)

end Position

namespace Source

variable {s : Source} {raws : List (List Char)}

/-- Where the character stands that a source delivers after some others. -/
def positionOf (s : Source) (n : Nat) : Position := ((LineStream.ofSource s).after n).here

theorem positionOf_eq (s : Source) (n : Nat) :
    s.positionOf n = Position.across {} ((delivered s.reading.lines).take n) :=
  s.delivers.here_after n

theorem place_eq (s : Source) (n : Nat) :
    ((LineStream.ofSource s).after n).place = Span.single s.name (s.positionOf n) := by
  rw [positionOf_eq]
  exact s.delivers.place n

theorem one_le_positionOf (s : Source) (n : Nat) : 1 ≤ (s.positionOf n).line ∧ 1 ≤ (s.positionOf n).column := by
  rw [positionOf_eq]
  constructor
  · rw [Position.line_across]
    exact Nat.le_add_right 1 _
  · exact Position.one_le_column_across (Nat.le_refl 1) _

/-- Characters that are not delivered in front of others do not stand in front of them. -/
theorem positionOf_le (s : Source) {i j : Nat} (h : i ≤ j) : s.positionOf i ≤ s.positionOf j := by
  obtain ⟨more, rfl⟩ := Nat.exists_eq_add_of_le h
  rw [positionOf_eq, positionOf_eq, List.take_add, Position.across_append]
  exact Position.le_across _ _

theorem fits_positionOf (hraws : RawLines s.failure s.bytes.data.toList raws s.reading.failure)
    (hlength : raws.flatten.length < 0x40000000) (n : Nat) :
    Fits (s.positionOf n) ∧ Fits (s.positionOf n).advance := by
  obtain ⟨lines, hreading, hstripped⟩ := hraws.exists_lines
  obtain rfl : s.reading.lines = lines := congrArg Reading.lines hreading
  have h := fits_place hraws hstripped hlength n
  rw [place_eq] at h
  exact h

/-- **All positions of a source that is not too long are computed in words.** -/
theorem across?_delivered (hraws : RawLines s.failure s.bytes.data.toList raws s.reading.failure)
    (hlength : raws.flatten.length < 0x40000000) (n : Nat) :
    Position.across? {} ((delivered s.reading.lines).take n) = some (s.positionOf n) ∧
      (s.positionOf n).advance? = some (s.positionOf n).advance := by
  constructor
  · rw [positionOf_eq]
    apply Position.across?_eq (Nat.le_refl 1)
    intro m
    rw [List.take_take, ← positionOf_eq]
    exact (fits_positionOf hraws hlength _).1
  · exact Position.advance?_eq (fits_positionOf hraws hlength n).2

end Source

end FormulaCompiler
