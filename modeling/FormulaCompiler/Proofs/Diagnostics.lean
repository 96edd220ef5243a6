import Mathlib.Data.List.TakeWhile
import Mathlib.Tactic.MkIffOfInductiveProp
import FormulaCompiler.Diagnostics
import FormulaCompiler.Proofs.Position

/-!
# Underlined lines

A problem whose place lies within a line that has been read is shown with this line as it is and carets under it
(`block_of_within`). Where the line is laid out with a tab stop every four columns, the carets stand in the columns of
the place (`across_eq_of_laidOut`). A report comes whole as long as the places in it are narrow (`fits_quoting`), and
breaks off otherwise in front of the first line that is too wide (`written_text`).
-/

namespace FormulaCompiler

variable {p : Position} {chars more laid : List Char}

/-! ### Layout -/

/-- Lays out a character behind others. A tab fills the columns up to the next stop. -/
def layOut (laid : List Char) (c : Char) : List Char :=
  if c = '\t' then laid ++ List.replicate (4 - laid.length % 4) ' ' else laid ++ [c]

/-- A line with blanks for its tabs, with tab stops every four columns from its own first column on. -/
def laidOut (line : List Char) : List Char := line.foldl layOut []

theorem prefix_foldl_layOut (laid chars : List Char) : laid <+: chars.foldl layOut laid := by
  induction chars generalizing laid with
  | nil => exact List.prefix_rfl
  | cons c chars ih =>
      refine List.IsPrefix.trans ?_ (ih (layOut laid c))
      unfold layOut
      split
      · exact List.prefix_append laid _
      · exact List.prefix_append laid _

theorem foldl_layOut_of_notMem (htab : '\t' ∉ chars) : chars.foldl layOut laid = laid ++ chars := by
  induction chars generalizing laid with
  | nil => exact (List.append_nil laid).symm
  | cons c chars ih =>
      rw [List.mem_cons, not_or] at htab
      rw [List.foldl_cons, ih htab.2, layOut, if_neg (Ne.symm htab.1), List.append_assoc, List.singleton_append]

/-- A line is laid out from the front. -/
theorem laidOut_prefix (chars more : List Char) : laidOut chars <+: laidOut (chars ++ more) := by
  rw [laidOut, laidOut, List.foldl_append]
  exact prefix_foldl_layOut _ more

/-- What has no tab in it is laid out as it is. -/
theorem laidOut_append_prefix (htab : '\t' ∉ more) (rest : List Char) :
    laidOut chars ++ more <+: laidOut (chars ++ (more ++ rest)) := by
  rw [laidOut, laidOut, List.foldl_append, List.foldl_append, foldl_layOut_of_notMem htab]
  exact prefix_foldl_layOut _ rest

theorem column_foldl (hbreak : '\n' ∉ chars) (hcolumn : p.column = laid.length + 1) :
    (p.across chars).column = (chars.foldl layOut laid).length + 1 := by
  induction chars generalizing p laid with
  | nil => exact hcolumn
  | cons c chars ih =>
      rw [List.mem_cons, not_or] at hbreak
      rw [Position.across_cons, List.foldl_cons]
      apply ih hbreak.2
      rw [Position.after, if_neg (Ne.symm hbreak.1), layOut]
      split
      · show 1 + ((p.column - 1) / 4 + 1) * 4 = _
        rw [List.length_append, List.length_replicate]
        omega
      · rw [List.length_append, List.length_singleton, ← hcolumn]
        rfl

/-- A position is in the column behind what stands in front of it on its line, laid out. -/
theorem across_eq_of_laidOut (number : Nat) (hbreak : '\n' ∉ chars) :
    Position.across ⟨number, 1⟩ chars = ⟨number, (laidOut chars).length + 1⟩ := by
  have hcolumn : (Position.across ⟨number, 1⟩ chars).column = (laidOut chars).length + 1 := column_foldl hbreak rfl
  rw [← hcolumn]
  exact congrArg (Position.mk · _) (Position.across_line hbreak)

/-! ### Lines that fit -/

namespace ReportLine

theorem fits_iff {line : ReportLine} : line.fits = true ↔ ∀ width ∈ line.widths, width ≤ widthLimit := by
  simp [fits]

/-- What has no widths can always be formatted. -/
theorem fits_plain (text : String) : ReportLine.fits { text } = true := rfl

/-- If not all lines fit, those in front of the first one that does not are the longest beginning that does. -/
theorem takeWhile_fits {lines : List ReportLine} (h : lines.all fits = false) :
    ∃ line rest, lines = lines.takeWhile fits ++ line :: rest ∧ line.fits = false := by
  induction lines with
  | nil => cases h
  | cons first lines ih =>
      cases hfirst : first.fits with
      | false =>
          rw [List.takeWhile_cons_of_neg (by simp [hfirst])]
          exact ⟨first, lines, rfl, hfirst⟩
      | true =>
          rw [List.all_cons, hfirst, Bool.true_and] at h
          obtain ⟨line, rest, hlines, hline⟩ := ih h
          rw [List.takeWhile_cons_of_pos hfirst]
          exact ⟨line, rest, congrArg (first :: ·) hlines, hline⟩

/-- What is written of some lines: all of them, or those in front of the first that cannot be formatted. -/
inductive Written (lines : List ReportLine) (text : String) : Bool → Prop where
  | whole (hfits : ∀ line ∈ lines, line.fits = true) (htext : text = joined lines) : Written lines text true
  | broken {front : List ReportLine} {wide : ReportLine} {rest : List ReportLine} (hlines : lines = front ++ wide :: rest)
      (hfits : ∀ line ∈ front, line.fits = true) (hwide : wide.fits = false) (htext : text = joined front) :
      Written lines text false

theorem written_takeWhile (lines : List ReportLine) :
    Written lines (joined (lines.takeWhile fits)) (lines.all fits) := by
  cases hall : lines.all fits with
  | true =>
      rw [List.all_eq_true] at hall
      exact .whole hall (congrArg joined (List.takeWhile_eq_self_iff.2 hall))
  | false =>
      obtain ⟨wide, rest, hlines, hwide⟩ := takeWhile_fits hall
      exact .broken hlines (fun line => List.mem_takeWhile_imp) hwide rfl

end ReportLine

/-! ### Blocks -/

/-- Whether a span within a line can be underlined: neither the number of its line, nor what is in front of it, nor the
span itself is too wide to be formatted. -/
@[mk_iff]
structure Span.Narrow (span : Span) : Prop where
  gutter : (toString span.start.line).length ≤ widthLimit
  skip : span.start.column - 1 ≤ widthLimit
  width : span.stop.column - span.start.column ≤ widthLimit

namespace Diagnostics

/-- The block of a problem that quotes a line and underlines some of its columns. -/
def quoting (kind : String) (problem : Spanned Problem) (number : Nat) (line : String) (skip width : Nat) :
    List ReportLine :=
  let gutter := (toString number).length
  [{ text := kind ++ ": " ++ problem.value.message }, { text := " --> " ++ problem.span.text },
    { text := Excerpt.spaces gutter ++ " |", widths := [gutter] },
    { text := toString number ++ " | " ++ line, widths := [gutter] },
    { text := Excerpt.spaces gutter ++ " | " ++ Excerpt.spaces skip ++ String.ofList (List.replicate width '^')
      widths := [gutter, skip, width] },
    { text := "" }]

variable {read : List String} {problem : Spanned Problem} {number skip width : Nat} {line : String}

theorem numbered_self (number : Nat) : Excerpt.numbered (toString number).length number = toString number := by
  rw [Excerpt.numbered, Nat.sub_self]
  exact String.empty_append

/-- A place within a line is shown with this line and underlined in it. -/
theorem block_of_within (kind : String) (hline : read[number]? = some line)
    (hstart : problem.span.start = ⟨number + 1, skip + 1⟩) (hstop : problem.span.stop = ⟨number + 1, skip + 1 + width⟩)
    (hwidth : 0 < width) : block kind read problem = quoting kind problem (number + 1) line skip width := by
  have hread : ¬ (number + 1 = 0 ∨ read.length < number + 1) := by
    have := (List.getElem?_eq_some_iff.1 hline).1
    omega
  have hback : (⟨number + 1, skip + 1 + width⟩ : Position).back.column = skip + width := by
    show max 1 (skip + 1 + width - 1) = _
    omega
  have hskip : min (skip + 1) (skip + width) - 1 = skip := by omega
  have hcarets : max (skip + 1) (skip + width) - min (skip + 1) (skip + width) + 1 = width := by omega
  rw [block, Excerpt.ofSpan?, hstart, hstop, if_neg hread]
  simp only [hback, hskip, hcarets, Nat.add_sub_cancel_left, List.range'_one, List.filterMap_cons, Nat.add_sub_cancel, hline,
    Option.map_some, List.filterMap_nil, Option.elim_some, Excerpt.lines, List.map_cons, List.map_nil, Excerpt.row,
    numbered_self]
  rfl

/-- Such a block fits just if its place is narrow. -/
theorem fits_quoting (kind : String) (hstart : problem.span.start = ⟨number, skip + 1⟩)
    (hstop : problem.span.stop = ⟨number, skip + 1 + width⟩) :
    (∀ row ∈ quoting kind problem number line skip width, row.fits = true) ↔ problem.span.Narrow := by
  have hnarrow : problem.span.Narrow ↔
      (toString number).length ≤ widthLimit ∧ skip ≤ widthLimit ∧ width ≤ widthLimit := by
    rw [Span.narrow_iff, hstart, hstop, Nat.add_sub_cancel, Nat.add_sub_cancel_left]
  rw [hnarrow]
  simp [quoting, ReportLine.fits]

theorem fits_of_within (kind : String) (hline : read[number]? = some line)
    (hstart : problem.span.start = ⟨number + 1, skip + 1⟩) (hstop : problem.span.stop = ⟨number + 1, skip + 1 + width⟩)
    (hwidth : 0 < width) :
    (∀ row ∈ block kind read problem, row.fits = true) ↔ problem.span.Narrow := by
  rw [block_of_within kind hline hstart hstop hwidth]
  exact fits_quoting kind hstart hstop

/-- Where no line has been read, nothing is quoted. -/
theorem block_of_unread (kind : String) : block kind [] problem =
    [{ text := kind ++ ": " ++ problem.value.message }, { text := " --> " ++ problem.span.text }, { text := "" }] := by
  have hunread : problem.span.start.line = 0 ∨ ([] : List String).length < problem.span.start.line := by
    rw [List.length_nil]
    omega
  rw [block, Excerpt.ofSpan?, if_pos hunread]
  rfl

/-! ### Reports -/

variable {d : Diagnostics}

/-- A report is its blocks one after the other, and a footer with their number. -/
theorem lines_eq (hne : d.problems ≠ []) (read : List String) :
    d.lines read = (d.problems.map (block d.kind read)).flatten ++ [footer d.size] := by
  rw [lines, List.isEmpty_eq_false_iff.2 hne, if_neg Bool.false_ne_true, List.flatMap_def]

/-- A report comes whole if all its blocks fit. -/
theorem whole_iff (hne : d.problems ≠ []) (read : List String) :
    d.whole read = true ↔ ∀ problem ∈ d.problems, ∀ row ∈ block d.kind read problem, row.fits = true := by
  rw [whole, lines_eq hne, List.all_eq_true, List.forall_mem_append, List.forall_mem_singleton, List.forall_mem_flatten,
    List.forall_mem_map]
  exact and_iff_left (ReportLine.fits_plain _)

/-- A report comes whole, or it breaks off in front of a line that is too wide. -/
theorem written_text (d : Diagnostics) (read : List String) :
    ReportLine.Written (d.lines read) (d.text read) (d.whole read) :=
  ReportLine.written_takeWhile _

end Diagnostics

end FormulaCompiler
