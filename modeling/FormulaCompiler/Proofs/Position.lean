import FormulaCompiler.Position

/-!
# Positions along a line

Positions are ordered as they are read, by line and then by column. `placed` gives each character of a line
its position; since every character takes at least one column, later characters stand further right
(`lt_across_of_mem_placed`). Only a tab takes more than one column, so characters that are no tabs stand side
by side (`across_eq_right`).
-/

namespace FormulaCompiler

instance : LE Position := ⟨fun p q => p.line < q.line ∨ p.line = q.line ∧ p.column ≤ q.column⟩

instance : LT Position := ⟨fun p q => p.line < q.line ∨ p.line = q.line ∧ p.column < q.column⟩

instance (p q : Position) : Decidable (p ≤ q) :=
  inferInstanceAs (Decidable (p.line < q.line ∨ p.line = q.line ∧ p.column ≤ q.column))

instance (p q : Position) : Decidable (p < q) :=
  inferInstanceAs (Decidable (p.line < q.line ∨ p.line = q.line ∧ p.column < q.column))

namespace Position

variable {p q r : Position} {c : Char} {chars : List Char} {n : Nat}

theorem le_iff : p ≤ q ↔ p.line < q.line ∨ p.line = q.line ∧ p.column ≤ q.column := Iff.rfl

theorem lt_iff : p < q ↔ p.line < q.line ∨ p.line = q.line ∧ p.column < q.column := Iff.rfl

theorem not_le : ¬ p ≤ q ↔ q < p := by
  rw [le_iff, lt_iff]
  omega

theorem not_lt : ¬ p < q ↔ q ≤ p := by
  rw [le_iff, lt_iff]
  omega

protected theorem le_refl (p : Position) : p ≤ p := .inr ⟨rfl, Nat.le_refl _⟩

protected theorem le_trans (hpq : p ≤ q) (hqr : q ≤ r) : p ≤ r := by
  rw [le_iff] at *
  omega

protected theorem lt_of_lt_of_le (hpq : p < q) (hqr : q ≤ r) : p < r := by
  rw [le_iff] at hqr
  rw [lt_iff] at *
  omega

protected theorem le_of_lt (h : p < q) : p ≤ q := by
  rw [lt_iff] at h
  rw [le_iff]
  omega

/-- Some columns further right. -/
def right (p : Position) (n : Nat) : Position := { p with column := p.column + n }

@[simp] theorem right_line (p : Position) (n : Nat) : (p.right n).line = p.line := rfl

@[simp] theorem right_column (p : Position) (n : Nat) : (p.right n).column = p.column + n := rfl

theorem right_succ (p : Position) (n : Nat) : p.right (n + 1) = p.advance.right n := by
  show (⟨_, _⟩ : Position) = ⟨_, _⟩
  rw [Nat.add_comm n, ← Nat.add_assoc]
  rfl

theorem lt_right (hn : 0 < n) : p < p.right n := by
  rw [lt_iff, right_line, right_column]
  omega

/-! ### Along the characters of a line -/

/-- The position behind some characters of which the first stands at a position. -/
def across (p : Position) (chars : List Char) : Position := chars.foldl after p

theorem across_cons (p : Position) (c : Char) (chars : List Char) :
    p.across (c :: chars) = (p.after c).across chars := rfl

theorem across_append (p : Position) (chars more : List Char) :
    p.across (chars ++ more) = (p.across chars).across more := List.foldl_append

theorem after_of_ne (hbreak : c ≠ '\n') (htab : c ≠ '\t') : p.after c = p.advance := by
  rw [after, if_neg hbreak, if_neg htab]

theorem after_line (hbreak : c ≠ '\n') : (p.after c).line = p.line := by
  rw [after, if_neg hbreak]
  split <;> rfl

theorem newline_after (hbreak : c ≠ '\n') : (p.after c).newline = p.newline := by
  rw [newline, after_line hbreak]
  rfl

theorem lt_after (p : Position) (c : Char) : p < p.after c := by
  unfold after
  split
  · exact .inl (Nat.lt_succ_self _)
  · refine .inr ⟨by split <;> rfl, ?_⟩
    split
    · show p.column < 1 + ((p.column - 1) / 4 + 1) * 4
      omega
    · exact Nat.lt_succ_self _

theorem across_line (hbreak : '\n' ∉ chars) : (p.across chars).line = p.line := by
  induction chars generalizing p with
  | nil => rfl
  | cons c chars ih =>
      rw [List.mem_cons, not_or] at hbreak
      rw [across_cons, ih hbreak.2, after_line (Ne.symm hbreak.1)]

theorem le_across (p : Position) (chars : List Char) : p ≤ p.across chars := by
  induction chars generalizing p with
  | nil => exact Position.le_refl p
  | cons c chars ih => exact Position.le_trans (Position.le_of_lt (lt_after p c)) (ih _)

theorem lt_across (hne : chars ≠ []) : p < p.across chars := by
  obtain ⟨c, chars, rfl⟩ := List.exists_cons_of_ne_nil hne
  exact Position.lt_of_lt_of_le (lt_after p c) (le_across _ _)

theorem across_eq_right (hbreak : '\n' ∉ chars) (htab : '\t' ∉ chars) : p.across chars = p.right chars.length := by
  induction chars generalizing p with
  | nil => rfl
  | cons c chars ih =>
      rw [List.mem_cons, not_or] at hbreak htab
      rw [across_cons, after_of_ne (Ne.symm hbreak.1) (Ne.symm htab.1), ih hbreak.2 htab.2, List.length_cons,
        right_succ]

/-- A line ends in front of the next one, wherever in it its last characters begin. -/
theorem across_newline (hbreak : '\n' ∉ chars) : p.across (chars ++ ['\n']) = p.newline := by
  rw [across_append]
  show newline (p.across chars) = _
  rw [newline, across_line hbreak]
  rfl

/-- Each line is one line further down. -/
theorem across_lines (lines : List String) (number : Nat) (hlines : ∀ line ∈ lines, '\n' ∉ line.toList) :
    across ⟨number, 1⟩ (lines.flatMap fun line => line.toList ++ ['\n']) = ⟨number + lines.length, 1⟩ := by
  induction lines generalizing number with
  | nil => rfl
  | cons line lines ih =>
      rw [List.forall_mem_cons] at hlines
      rw [List.flatMap_cons, across_append, across_newline hlines.1, List.length_cons,
        Nat.add_comm lines.length, ← Nat.add_assoc]
      exact ih (number + 1) hlines.2

theorem line_across (p : Position) (chars : List Char) : (p.across chars).line = p.line + chars.count '\n' := by
  induction chars generalizing p with
  | nil => rfl
  | cons c chars ih =>
      rw [across_cons, ih]
      by_cases hbreak : c = '\n'
      · rw [hbreak, List.count_cons_self, Nat.add_comm _ 1, ← Nat.add_assoc]
        rfl
      · rw [after_line hbreak, List.count_cons_of_ne hbreak]

/-- No character is more than a tab wide. -/
theorem column_after_le (hcolumn : p.column ≤ 1 + 4 * n) : (p.after c).column ≤ 1 + 4 * (n + 1) := by
  unfold after
  split
  · exact Nat.le_add_right 1 _
  · split
    · show 1 + ((p.column - 1) / 4 + 1) * 4 ≤ _
      omega
    · show p.column + 1 ≤ _
      omega

/-- A line break takes no column at all. -/
theorem column_across_le (hcolumn : p.column ≤ 1 + 4 * n) (chars : List Char) :
    (p.across chars).column ≤ 1 + 4 * (n + chars.countP (· ≠ '\n')) := by
  induction chars generalizing p n with
  | nil => exact hcolumn
  | cons c chars ih =>
      rw [across_cons, List.countP_cons]
      by_cases hbreak : c = '\n'
      · have hfirst : (p.after c).column ≤ 1 + 4 * n := by
          rw [hbreak]
          exact Nat.le_add_right 1 _
        rw [if_neg (by simpa using hbreak)]
        exact ih hfirst
      · rw [if_pos (decide_eq_true hbreak), Nat.add_comm _ 1, ← Nat.add_assoc]
        exact ih (column_after_le hcolumn)

/-! ### The characters of a line in their places -/

/-- Characters with their positions, the first of them at a given one. -/
def placed (p : Position) : List Char → List (Char × Position)
  | [] => []
  | c :: chars => (c, p) :: placed (p.after c) chars

theorem placed_append (p : Position) (chars more : List Char) :
    p.placed (chars ++ more) = p.placed chars ++ (p.across chars).placed more := by
  induction chars generalizing p with
  | nil => rfl
  | cons c chars ih => exact congrArg ((c, p) :: ·) (ih (p.after c))

theorem map_fst_placed (p : Position) (chars : List Char) : (p.placed chars).map Prod.fst = chars := by
  induction chars generalizing p with
  | nil => rfl
  | cons c chars ih => exact congrArg (c :: ·) (ih (p.after c))

theorem mem_of_mem_placed (hmem : (c, q) ∈ p.placed chars) : c ∈ chars :=
  map_fst_placed p chars ▸ List.mem_map_of_mem hmem

theorem line_of_mem_placed (hbreak : '\n' ∉ chars) (hmem : (c, q) ∈ p.placed chars) : q.line = p.line := by
  induction chars generalizing p with
  | nil => exact absurd hmem List.not_mem_nil
  | cons d chars ih =>
      rw [List.mem_cons, not_or] at hbreak
      obtain hmem | hmem := List.mem_cons.1 hmem
      · rw [(Prod.mk.inj hmem).2]
      · rw [ih hbreak.2 hmem, after_line (Ne.symm hbreak.1)]

theorem le_of_mem_placed (hmem : (c, q) ∈ p.placed chars) : p ≤ q := by
  induction chars generalizing p with
  | nil => exact absurd hmem List.not_mem_nil
  | cons d chars ih =>
      obtain hmem | hmem := List.mem_cons.1 hmem
      · obtain ⟨-, rfl⟩ := Prod.mk.inj hmem
        exact Position.le_refl q
      · exact Position.le_trans (Position.le_of_lt (lt_after p d)) (ih hmem)

/-- Every character stands in front of what follows them all. -/
theorem lt_across_of_mem_placed (hmem : (c, q) ∈ p.placed chars) : q < p.across chars := by
  induction chars generalizing p with
  | nil => exact absurd hmem List.not_mem_nil
  | cons d chars ih =>
      rw [across_cons]
      obtain hmem | hmem := List.mem_cons.1 hmem
      · obtain ⟨-, rfl⟩ := Prod.mk.inj hmem
        exact Position.lt_of_lt_of_le (lt_after q d) (le_across _ _)
      · exact ih hmem

end Position

namespace Span

/-- Whether a position is in a span. -/
def Covers (span : Span) (p : Position) : Prop := span.start ≤ p ∧ p < span.stop

instance (span : Span) (p : Position) : Decidable (span.Covers p) :=
  inferInstanceAs (Decidable (span.start ≤ p ∧ p < span.stop))

/-- The characters of a line that stand in a span which begins on it. -/
def excerpt (span : Span) (line : List Char) : List Char :=
  ((Position.placed ⟨span.start.line, 1⟩ line).filter fun placed => span.Covers placed.2).map Prod.fst

/-- A span across a part of a line cuts it out of the line. -/
theorem excerpt_append {span : Span} {before inside rest : List Char}
    (hstart : span.start = Position.across ⟨span.start.line, 1⟩ before)
    (hstop : span.stop = span.start.across inside) : span.excerpt (before ++ (inside ++ rest)) = inside := by
  have hleft : (Position.placed ⟨span.start.line, 1⟩ before).filter (fun placed => span.Covers placed.2) = [] := by
    rw [List.filter_eq_nil_iff]
    rintro ⟨c, p⟩ hmem hcovers
    have hlt := Position.lt_across_of_mem_placed hmem
    rw [← hstart] at hlt
    exact Position.not_le.2 hlt (of_decide_eq_true hcovers).1
  have hwithin : (span.start.placed inside).filter (fun placed => span.Covers placed.2) =
      span.start.placed inside := by
    rw [List.filter_eq_self]
    rintro ⟨c, p⟩ hmem
    have hlt := Position.lt_across_of_mem_placed hmem
    rw [← hstop] at hlt
    exact decide_eq_true ⟨Position.le_of_mem_placed hmem, hlt⟩
  have hright : (span.stop.placed rest).filter (fun placed => span.Covers placed.2) = [] := by
    rw [List.filter_eq_nil_iff]
    rintro ⟨c, p⟩ hmem hcovers
    exact Position.not_lt.2 (Position.le_of_mem_placed hmem) (of_decide_eq_true hcovers).2
  rw [excerpt, Position.placed_append, Position.placed_append, ← hstart, ← hstop, List.filter_append,
    List.filter_append, hleft, hwithin, hright, List.nil_append, List.append_nil, Position.map_fst_placed]

end Span

end FormulaCompiler
