import FormulaCompiler.Proofs.Diagnostics
import FormulaCompiler.Proofs.Numerals
import FormulaCompiler.Proofs.Source.Words

/-!
# Excerpts over any span

A span may end on another line than the one it starts on, and before it starts. Whatever span an excerpt is made for, its
bar stands in one column, its rows are the recorded lines of the span, and its carets stand under the columns of both ends
and those between them (`shows_lines`). Main statement: what the block of a problem looks like whose span reaches from any
place in a source to any other (`block_of_places`).
-/

namespace FormulaCompiler

namespace Excerpt

/-- What stands in front of the bar of a line. -/
def gutterOf (line : String) : List Char := line.toList.takeWhile (· ≠ '|')

/-- What stands behind the bar of a line. -/
def contentOf (line : String) : List Char := (line.toList.dropWhile (· ≠ '|')).drop 1

/-- What an underline takes in words of 32 bits: the columns in front of the carets and the columns with carets. -/
def underline? (first last : Nat) : Option (Nat × Nat) := do
  let skip ← subtractWords? (min first last) 1
  let between ← subtractWords? (max first last) (min first last)
  let width ← addWords? between 1
  return (skip, width)

/-- Whether lines are those of an excerpt from one position to another, both included: a line of its own above, the
recorded lines with their numbers, and the underline. Behind the bar and a blank, a line of the source begins in the
first column. -/
structure Shows (recorded : List String) (first last : Position) (top : ReportLine) (rows : List ReportLine)
    (underline : ReportLine) : Prop where
  barred : ∀ line ∈ top :: rows ++ [underline],
    '|' ∈ line.text.toList ∧ (gutterOf line.text).length = (toString last.line).length + 1
  rows_eq : rows.map (·.text) = (((recorded.take last.line).drop (first.line - 1)).zipIdx first.line).map fun row =>
    numbered (toString last.line).length row.2 ++ " | " ++ row.1
  top_eq : contentOf top.text = []
  computed : ∃ skip width, underline? first.column last.advance.back.column = some (skip, width) ∧
    contentOf underline.text = List.replicate (skip + 1) ' ' ++ List.replicate width '^'
  carets : ∀ column, (contentOf underline.text)[column]? = some '^' ↔
    min first.column last.column ≤ column ∧ column ≤ max first.column last.column
  blanks : ∀ c ∈ contentOf underline.text, c = ' ' ∨ c = '^'
  /-- All that can be too wide to be formatted is the underline. -/
  fits : ∀ line ∈ top :: rows, line.fits = true
  fits_underline : underline.fits = true ↔ min first.column last.column - 1 ≤ widthLimit ∧
    max first.column last.column - min first.column last.column + 1 ≤ widthLimit

variable {recorded : List String} {first last : Position} {line : String} {front content : List Char} {gutter number : Nat}

/-! ### Bars -/

theorem columns_of_toList (h : line.toList = front ++ '|' :: content) (hfront : '|' ∉ front) :
    '|' ∈ line.toList ∧ gutterOf line = front ∧ contentOf line = content := by
  have hbar : ∀ c ∈ front, (c ≠ '|' : Bool) = true := by
    intro c hmem
    apply decide_eq_true
    rintro rfl
    exact hfront hmem
  rw [gutterOf, contentOf, h, List.takeWhile_append_of_pos hbar, List.dropWhile_append_of_pos hbar,
    List.takeWhile_cons_of_neg (by decide), List.dropWhile_cons_of_neg (by decide), List.append_nil]
  exact ⟨List.mem_append_right _ List.mem_cons_self, rfl, rfl⟩

theorem bar_notMem_spaces (count : Nat) : '|' ∉ List.replicate count ' ' := by
  intro hmem
  exact absurd (List.eq_of_mem_replicate hmem) (by decide)

theorem columns_top (gutter : Nat) : '|' ∈ (spaces gutter ++ " |").toList ∧
    (gutterOf (spaces gutter ++ " |")).length = gutter + 1 ∧ contentOf (spaces gutter ++ " |") = [] := by
  have htext : (spaces gutter ++ " |").toList = List.replicate (gutter + 1) ' ' ++ '|' :: [] := by
    rw [String.toList_append, spaces, String.toList_ofList, List.replicate_succ', List.append_assoc]
    rfl
  obtain ⟨hbar, hgutter, hcontent⟩ := columns_of_toList htext (bar_notMem_spaces _)
  exact ⟨hbar, by rw [hgutter, List.length_replicate], hcontent⟩

theorem columns_row (hnumber : (toString number).length ≤ gutter) (line : String) :
    '|' ∈ (row gutter number line).text.toList ∧ (gutterOf (row gutter number line).text).length = gutter + 1 := by
  have hdigits : '|' ∉ (toString number).toList := Decimal.notMem_repr (by decide) number
  have htext : (row gutter number line).text.toList =
      (List.replicate (gutter - (toString number).length) ' ' ++ (toString number).toList ++ [' ']) ++
        '|' :: ' ' :: line.toList := by
    rw [row, String.toList_append, String.toList_append, numbered, String.toList_append, spaces, String.toList_ofList]
    simp
  have hfront : '|' ∉ List.replicate (gutter - (toString number).length) ' ' ++ (toString number).toList ++ [' '] := by
    simp only [List.mem_append, not_or]
    exact ⟨⟨bar_notMem_spaces _, hdigits⟩, by decide⟩
  obtain ⟨hbar, hgutter, -⟩ := columns_of_toList htext hfront
  refine ⟨hbar, ?_⟩
  rw [hgutter, List.length_append, List.length_append, List.length_replicate, String.length_toList]
  simp only [List.length_singleton]
  omega

theorem columns_underline (gutter skip width : Nat) :
    '|' ∈ (underline gutter skip width).text.toList ∧ (gutterOf (underline gutter skip width).text).length = gutter + 1 ∧
      contentOf (underline gutter skip width).text = List.replicate (skip + 1) ' ' ++ List.replicate width '^' := by
  have htext : (underline gutter skip width).text.toList = List.replicate (gutter + 1) ' ' ++ '|' ::
      (List.replicate (skip + 1) ' ' ++ List.replicate width '^') := by
    rw [underline, String.toList_append, String.toList_append, String.toList_append, spaces, spaces, String.toList_ofList,
      String.toList_ofList, String.toList_ofList, List.replicate_succ', List.replicate_succ]
    simp
  obtain ⟨hbar, hgutter, hcontent⟩ := columns_of_toList htext (bar_notMem_spaces _)
  exact ⟨hbar, by rw [hgutter, List.length_replicate], hcontent⟩

/-! ### Rows and carets -/

theorem length_toString_eq (number : Nat) : (toString number).length = (Nat.toDigits 10 number).length := by
  rw [Nat.toString_eq_repr, ← String.length_toList, Nat.toList_repr]

/-- Later numbers have no fewer digits. -/
theorem length_toString_le (h : number ≤ last.line) : (toString number).length ≤ (toString last.line).length := by
  have hpos : 0 < (Nat.toDigits 10 last.line).length := List.length_pos_iff.2 Nat.toDigits_ne_nil
  rw [length_toString_eq, length_toString_eq, Nat.length_toDigits_le_iff (by decide) hpos]
  exact Nat.lt_of_le_of_lt h ((Nat.length_toDigits_le_iff (by decide) hpos).1 (Nat.le_refl _))

/-- A number of 32 bits does not make a gutter too wide. -/
theorem length_toString_of_word (h : number < 0x100000000) : (toString number).length ≤ widthLimit := by
  have hdigits : (Nat.toDigits 10 number).length ≤ 10 := (Nat.length_toDigits_le_iff (by decide) (by decide)).2 (by omega)
  rw [length_toString_eq]
  exact hdigits.trans (by decide)

/-- The lines with the numbers of a range are the lines behind each other. -/
theorem filterMap_range' (recorded : List String) (start count : Nat) :
    ((List.range' (start + 1) count).filterMap fun number => recorded[number - 1]?.map fun line => (number, line)) =
      (((recorded.drop start).take count).zipIdx (start + 1)).map Prod.swap := by
  induction count generalizing start with
  | zero => rfl
  | succ count ih =>
      rw [List.range'_succ, List.filterMap_cons, ih (start + 1), Nat.add_sub_cancel]
      by_cases hstart : start < recorded.length
      · rw [List.getElem?_eq_getElem hstart, List.drop_eq_getElem_cons hstart]
        rfl
      · rw [List.getElem?_eq_none (Nat.not_lt.1 hstart), List.drop_eq_nil_of_le (Nat.not_lt.1 hstart),
          List.drop_eq_nil_of_le (by omega), List.take_nil, List.take_nil]
        rfl

theorem carets_iff {first last : Nat} (hfirst : 1 ≤ first) (hlast : 1 ≤ last) (column : Nat) :
    (List.replicate (min first last - 1 + 1) ' ' ++
      List.replicate (max first last - min first last + 1) '^')[column]? = some '^' ↔
        min first last ≤ column ∧ column ≤ max first last := by
  rw [List.getElem?_append]
  simp only [List.length_replicate, List.getElem?_replicate]
  split
  · simp
    omega
  · simp
    omega

theorem underline?_eq {first last : Nat} (hfirst : 1 ≤ first) (hlast : 1 ≤ last) (hfits : first < 0x100000000)
    (hfits' : last < 0x100000000) :
    underline? first last = some (min first last - 1, max first last - min first last + 1) := by
  rw [underline?, subtractWords?_eq (by omega), Option.bind_eq_bind, Option.bind_some, subtractWords?_eq (by omega)]
  simp only [Option.bind_some]
  rw [addWords?_eq (by omega)]
  rfl

/-- The excerpt of a span whose last column is that of a position. -/
theorem ofSpan?_eq {span : Span} (hline : 1 ≤ span.start.line) (hrecorded : span.start.line ≤ recorded.length)
    (hstop : span.stop = last.advance) (hcolumn : 1 ≤ last.column) : ofSpan? recorded span = some {
      gutter := (toString last.line).length
      rows := (((recorded.take last.line).drop (span.start.line - 1)).zipIdx span.start.line).map Prod.swap
      skip := min span.start.column last.column - 1
      width := max span.start.column last.column - min span.start.column last.column + 1 } := by
  have hcount : last.advance.line + 1 - span.start.line = last.line - (span.start.line - 1) := by
    show last.line + 1 - span.start.line = _
    omega
  obtain ⟨start, hstart⟩ : ∃ start, span.start.line = start + 1 := ⟨_, (Nat.sub_add_cancel hline).symm⟩
  rw [ofSpan?, if_neg (by omega), hstop]
  simp only [Position.back_advance hcolumn, hcount]
  rw [hstart, filterMap_range', Nat.add_sub_cancel, List.drop_take]
  rfl

theorem lines_eq (gutter skip width : Nat) (rows : List (String × Nat)) :
    (Excerpt.mk gutter (rows.map Prod.swap) skip width).lines =
      { text := spaces gutter ++ " |", widths := [gutter] } :: rows.map (fun (line, number) => row gutter number line) ++
        [underline gutter skip width] := by
  rw [lines, List.map_map]
  rfl

/-- What is padded to the width of the gutter only fits if the gutter does. -/
theorem fits_of_gutter (h : gutter ≤ widthLimit) (text : String) : ReportLine.fits { text, widths := [gutter] } = true :=
  ReportLine.fits_iff.2 (List.forall_mem_singleton.2 h)

theorem fits_underline (h : gutter ≤ widthLimit) (skip width : Nat) :
    (underline gutter skip width).fits = true ↔ skip ≤ widthLimit ∧ width ≤ widthLimit := by
  rw [ReportLine.fits_iff, underline, List.forall_mem_cons, List.forall_mem_cons, List.forall_mem_singleton]
  exact and_iff_right h

/-- **An excerpt shows the recorded lines of its span and underlines its columns**, in whatever order its ends are. -/
theorem shows_lines {span : Span} (hline : 1 ≤ span.start.line) (hrecorded : span.start.line ≤ recorded.length)
    (hstop : span.stop = last.advance) (hcolumn : 1 ≤ span.start.column) (hlast : 1 ≤ last.column)
    (hfits : span.start.column < 0x100000000) (hfits' : last.column < 0x100000000)
    (hnarrow : (toString last.line).length ≤ widthLimit) :
    ∃ e top rows underline, ofSpan? recorded span = some e ∧ e.lines = top :: rows ++ [underline] ∧
      Shows recorded span.start last top rows underline := by
  obtain ⟨hbar, hgutter, htop⟩ := columns_top (toString last.line).length
  obtain ⟨hbar', hgutter', hcontent⟩ := columns_underline (toString last.line).length
    (min span.start.column last.column - 1) (max span.start.column last.column - min span.start.column last.column + 1)
  refine ⟨_, _, _, _, ofSpan?_eq hline hrecorded hstop hlast, lines_eq _ _ _ _, ?_⟩
  constructor
  · rw [List.forall_mem_append, List.forall_mem_cons, List.forall_mem_singleton, List.forall_mem_map]
    refine ⟨⟨⟨hbar, hgutter⟩, fun row hrow => ?_⟩, hbar', hgutter'⟩
    -- No row has a number above that of the last line, whose digits the gutter is made for.
    obtain ⟨hfrom, hnumber, -⟩ := List.mem_zipIdx hrow
    rw [List.length_drop, List.length_take] at hnumber
    exact columns_row (length_toString_le (by omega)) row.1
  · rw [List.map_map]
    rfl
  · exact htop
  · rw [Position.back_advance hlast]
    exact ⟨_, _, underline?_eq hcolumn hlast hfits hfits', hcontent⟩
  · rw [hcontent]
    exact carets_iff hcolumn hlast
  · rw [hcontent, List.forall_mem_append]
    exact ⟨fun c hmem => .inl (List.eq_of_mem_replicate hmem), fun c hmem => .inr (List.eq_of_mem_replicate hmem)⟩
  · rw [List.forall_mem_cons, List.forall_mem_map]
    exact ⟨fits_of_gutter hnarrow _, fun row _ => fits_of_gutter hnarrow _⟩
  · exact fits_underline hnarrow _ _

end Excerpt

/-- **The block of a problem is well defined and aligned, from whatever place to whatever other its span reaches**, and it
comes whole if its underline is not wider than what can be formatted. All positions are computed in words of 32 bits, and
none of their numbers is zero. The block has an excerpt just if the line that the span starts on has been recorded by
then. The excerpt shows the recorded lines from there to the line of the other place, which is not in front of it if the
place does not come first. -/
theorem Diagnostics.block_of_places {s : Source} {raws : List (List Char)}
    (hraws : Source.RawLines s.failure s.bytes.data.toList raws s.reading.failure)
    (hlength : raws.flatten.length < 0x40000000) (kind : String) (n i j : Nat) {problem : Spanned Problem}
    (hspan : problem.span = ((LineStream.ofSource s).after i).place.through ((LineStream.ofSource s).after j).place) :
    (∀ m, 1 ≤ (s.positionOf m).line ∧ 1 ≤ (s.positionOf m).column ∧
        Position.across? {} ((Source.delivered s.reading.lines).take m) = some (s.positionOf m) ∧
        (s.positionOf m).advance? = some (s.positionOf m).advance) ∧
      (i ≤ j → s.positionOf i ≤ s.positionOf j) ∧
      ((s.recorded n).length < (s.positionOf i).line → block kind (s.recorded n) problem =
        [{ text := kind ++ ": " ++ problem.value.message }, { text := " --> " ++ problem.span.text }, { text := "" }]) ∧
      ((s.positionOf i).line ≤ (s.recorded n).length → ∃ top rows underline, block kind (s.recorded n) problem =
          [{ text := kind ++ ": " ++ problem.value.message }, { text := " --> " ++ problem.span.text }] ++
            (top :: rows ++ [underline]) ++ [{ text := "" }] ∧
        Excerpt.Shows (s.recorded n) (s.positionOf i) (s.positionOf j) top rows underline) := by
  rw [Source.place_eq, Source.place_eq] at hspan
  have hstart : problem.span.start = s.positionOf i := congrArg Span.start hspan
  have hstop : problem.span.stop = (s.positionOf j).advance := congrArg Span.stop hspan
  obtain ⟨hline, hcolumn⟩ := s.one_le_positionOf i
  refine ⟨fun m => ?_, s.positionOf_le, fun hunread => ?_, fun hrecorded => ?_⟩
  · exact ⟨(s.one_le_positionOf m).1, (s.one_le_positionOf m).2, Source.across?_delivered hraws hlength m⟩
  · rw [block, Excerpt.ofSpan?, hstart, if_pos (.inr hunread)]
    rfl
  · have hfits := (Source.fits_positionOf hraws hlength i).1.2
    obtain ⟨hline', hfits'⟩ := (Source.fits_positionOf hraws hlength j).1
    rw [← hstart] at hline hcolumn hrecorded hfits ⊢
    obtain ⟨e, top, rows, underline, he, hlines, hshows⟩ :=
      Excerpt.shows_lines hline hrecorded hstop hcolumn (s.one_le_positionOf j).2 hfits hfits'
        (Excerpt.length_toString_of_word hline')
    refine ⟨top, rows, underline, ?_, hshows⟩
    rw [block, he, Option.elim_some, hlines]

/-- From the second column of a line to behind the tab of the next one. -/
theorem Diagnostics.block_of_places_later_line :
    Source.RawLines none (Source.ofText "f" "ab\n\tc").bytes.data.toList [['a', 'b', '\n'], ['\t', 'c']]
        (Source.ofText "f" "ab\n\tc").reading.failure ∧
      ∃ top rows underline,
        block "error" ["ab", "\tc"] ⟨.lexical .missingFraction, ⟨"f", ⟨1, 2⟩, ⟨2, 6⟩⟩⟩ =
          [{ text := "error: Expected at least one digit after the decimal point" }, { text := " --> f:[1:2-2:5]" }] ++
            (top :: rows ++ [underline]) ++ [{ text := "" }] ∧
        Excerpt.Shows ["ab", "\tc"] ⟨1, 2⟩ ⟨2, 5⟩ top rows underline := by
  have hfailure : (Source.ofText "f" "ab\n\tc").reading.failure = none := by decide +kernel
  have hraws : Source.RawLines none (Source.ofText "f" "ab\n\tc").bytes.data.toList [['a', 'b', '\n'], ['\t', 'c']]
      (Source.ofText "f" "ab\n\tc").reading.failure := by
    have hbytes : Source.encoded "ab\n\tc".toList = Source.encoded ['a', 'b'] ++ 0x0a :: Source.encoded ['\t', 'c'] := by
      decide +kernel
    rw [hfailure, Source.bytes_ofText, hbytes]
    exact .line (by decide) (.last (by decide) (by decide) rfl)
  have hrecorded : (Source.ofText "f" "ab\n\tc").recorded 5 = ["ab", "\tc"] := by decide +kernel
  have hfirst : (Source.ofText "f" "ab\n\tc").positionOf 1 = ⟨1, 2⟩ := by decide +kernel
  have hlast : (Source.ofText "f" "ab\n\tc").positionOf 4 = ⟨2, 5⟩ := by decide +kernel
  have hspan : (⟨"f", ⟨1, 2⟩, ⟨2, 6⟩⟩ : Span) = ((LineStream.ofSource (Source.ofText "f" "ab\n\tc")).after 1).place.through
      ((LineStream.ofSource (Source.ofText "f" "ab\n\tc")).after 4).place := by decide +kernel
  have hblock (problem : Spanned Problem) (h : problem.span = ⟨"f", ⟨1, 2⟩, ⟨2, 6⟩⟩) :=
    (block_of_places hraws (by decide) "error" 5 1 4 (h.trans hspan)).2.2.2
  rw [hrecorded, hfirst, hlast] at hblock
  exact ⟨hraws, hblock ⟨.lexical .missingFraction, _⟩ rfl (by decide)⟩

end FormulaCompiler
