/-!
# Lines of a text

A line is what stands before a line break, and so is what is left behind the last one unless that is
nothing. A line in front of a text is its first line (`lines_append`), which determines the lines of any
text.
-/

namespace FormulaCompiler.Text

/-- The lines of a text, without their line breaks. -/
def lines : List Char → List (List Char)
  | [] => []
  | c :: rest =>
      if c = '\n' then [] :: lines rest
      else match lines rest with
        | [] => [[c]]
        | line :: others => (c :: line) :: others

/-- What holds of a last line, and of a line in front of anything it holds of, holds of any list. A text is such a list,
and so are its bytes. -/
theorem lines_induction {α : Type} (lineBreak : α) {motive : List α → Prop}
    (last : ∀ line, lineBreak ∉ line → motive line)
    (further : ∀ line more, lineBreak ∉ line → motive more → motive (line ++ lineBreak :: more)) (list : List α) :
    motive list := by
  by_cases hbreak : lineBreak ∈ list
  · obtain ⟨line, more, hlist, hline⟩ := List.eq_append_cons_of_mem hbreak
    have hlength : more.length < list.length := by
      rw [hlist, List.length_append, List.length_cons]
      omega
    rw [hlist]
    exact further line more hline (lines_induction lineBreak last further more)
  · exact last list hbreak
  termination_by list.length
  decreasing_by exact hlength

variable {line more : List Char}

theorem lines_append (hline : '\n' ∉ line) : lines (line ++ '\n' :: more) = line :: lines more := by
  induction line with
  | nil => rw [List.nil_append, lines, if_pos rfl]
  | cons c line ih =>
      rw [List.mem_cons, not_or] at hline
      rw [List.cons_append, lines, if_neg (Ne.symm hline.1), ih hline.2]

theorem lines_of_notMem (hline : '\n' ∉ line) (hne : line ≠ []) : lines line = [line] := by
  induction line with
  | nil => contradiction
  | cons c line ih =>
      rw [List.mem_cons, not_or] at hline
      rw [lines, if_neg (Ne.symm hline.1)]
      cases line with
      | nil => rfl
      | cons d line => rw [ih hline.2 (List.cons_ne_nil d line)]

/-- Lines that end in a line break each are the lines of all of them together. -/
theorem lines_flatMap {all : List (List Char)} (hall : ∀ line ∈ all, '\n' ∉ line) :
    lines (all.flatMap fun line => line ++ ['\n']) = all := by
  induction all with
  | nil => rfl
  | cons line all ih =>
      rw [List.forall_mem_cons] at hall
      rw [List.flatMap_cons, List.append_assoc, List.singleton_append, lines_append hall.1, ih hall.2]

end FormulaCompiler.Text
