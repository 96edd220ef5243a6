import FormulaCompiler.LineStream
import FormulaCompiler.Proofs.Position
import FormulaCompiler.Proofs.Source.Failure

/-!
# What a line stream does

A request takes the next character of the current line, refills the stream first if there is none, and gives up where no
line can be had (`answers_next?`). Seen from outside, the stream is a `CharStream`: its `view` answers in the same way and
is left as the same (`next?_view`). By the time of an answer the lines are recorded up to the one that the answer comes
from, and no others (`recorded_next?`).
-/

namespace FormulaCompiler

/-! ### Reading one line -/

namespace Reader

open Source (Decodes encoded trimmed pieces readPieces)

variable {line more : List UInt8} {failure : Option String} {text : String}

/-- All that can still be read, line by line. -/
def reading (r : Reader) : Reading := readPieces r.failure (pieces r.bytes)

/-- All that can still be read, if this is what is read first. -/
def readingFrom : Except AccessError (Option String) × Reader → Reading
  | (.ok (some line), after) => ⟨trimmed line :: after.reading.lines, after.reading.failure⟩
  | (.ok none, _) => ⟨[], none⟩
  | (.error error, _) => ⟨[], some error⟩

theorem ne_newline_of_mem (hline : 0x0a ∉ line) : ∀ byte ∈ line, decide (byte ≠ 0x0a) = true :=
  fun _ hmem => decide_eq_true fun heq => hline (heq ▸ hmem)

theorem readLine_append (hline : 0x0a ∉ line) :
    readLine ⟨line ++ 0x0a :: more, failure⟩ = (decoded (line ++ [0x0a]), ⟨more, failure⟩) := by
  have hkept := ne_newline_of_mem hline
  rw [readLine, List.dropWhile_append_of_pos hkept, List.takeWhile_append_of_pos hkept,
    List.dropWhile_cons_of_neg (by decide), List.takeWhile_cons_of_neg (by decide), List.append_nil]

theorem dropWhile_of_notMem (hline : 0x0a ∉ line) : line.dropWhile (· ≠ 0x0a) = [] := by
  rw [← List.append_nil line, List.dropWhile_append_of_pos (ne_newline_of_mem hline)]
  rfl

theorem decoded_of_decodes (h : String.fromUTF8? ⟨line.toArray⟩ = some text) : decoded line = .ok (some text) := by
  rw [decoded, h]

/-- The line break of a line can always be decoded. -/
theorem decoded_concat (h : String.fromUTF8? ⟨line.toArray⟩ = some text) :
    decoded (line ++ [0x0a]) = .ok (some (String.ofList (text.toList ++ ['\n']))) := by
  have hbytes : line ++ [0x0a] = encoded (text.toList ++ ['\n']) := by
    rw [Source.encoded_append, ← Source.eq_encoded_of_decoded h]
    rfl
  rw [hbytes]
  exact decoded_of_decodes (Source.decoded_encoded _)

theorem decoded_of_not_decodes (h : ¬ Decodes line) : decoded line = .error .invalidText := by
  unfold decoded
  split
  · exact absurd ⟨_, ‹_›⟩ h
  · rfl

/-- So a line can be decoded with its line break just if it can without. -/
theorem decodes_of_decodes_concat (h : Decodes (line ++ [0x0a])) : Decodes line := by
  obtain ⟨text, htext⟩ := h
  have hbytes := Source.eq_encoded_of_decoded htext
  obtain hnil | ⟨front, c, htext⟩ := List.eq_nil_or_concat text.toList
  · rw [hnil] at hbytes
    exact absurd hbytes (List.append_ne_nil_of_right_ne_nil line (List.cons_ne_nil _ _))
  · rw [htext, List.concat_eq_append, encoded, List.flatMap_append, List.flatMap_singleton] at hbytes
    have hlast : (0x0a : UInt8) ∈ String.utf8EncodeChar c := by
      obtain hnil | ⟨bytes, last, hc⟩ := List.eq_nil_or_concat (String.utf8EncodeChar c)
      · exact absurd hnil String.utf8EncodeChar_ne_nil
      · rw [hc, List.concat_eq_append, ← List.append_assoc] at hbytes
        obtain ⟨-, hlast⟩ := List.append_inj' hbytes rfl
        rw [hc, List.concat_eq_append, ← hlast]
        exact List.mem_concat_self
    obtain rfl := Source.newline_mem_of_utf8EncodeChar hlast
    obtain ⟨rfl, -⟩ := List.append_inj' hbytes rfl
    exact ⟨_, Source.decoded_encoded front⟩

theorem trimmed_concat (text : String) : trimmed (String.ofList (text.toList ++ ['\n'])) = trimmed text :=
  Source.trimmed_of_stripped ((Source.stripped_trimmed text).concat (.inr rfl))

/-- **The lines of a source are those that are read one after the other.** -/
theorem reading_eq (r : Reader) : r.reading = readingFrom r.readLine := by
  obtain ⟨bytes, failure⟩ := r
  show readPieces failure (pieces bytes) = _
  induction bytes using Text.lines_induction (0x0a : UInt8) with
  | further line more hline _ =>
      rw [Source.readPieces_append failure hline, readLine_append hline]
      by_cases hdecodes : Decodes line
      · obtain ⟨text, htext⟩ := hdecodes
        rw [decoded_concat htext, Source.readLine, htext, readingFrom, trimmed_concat]
        rfl
      · rw [decoded_of_not_decodes (mt decodes_of_decodes_concat hdecodes), Source.readLine_of_not_decodes hdecodes]
        rfl
  | last line hline =>
      rw [readLine, dropWhile_of_notMem hline]
      cases failure with
      | some message =>
          rw [Source.pieces_of_notMem hline]
          rfl
      | none =>
          rw [Source.readPieces_last hline]
          by_cases hempty : line.isEmpty
          · rw [if_pos hempty]
            show _ = readingFrom (if line.isEmpty then _ else _)
            rw [if_pos hempty]
            rfl
          · rw [if_neg hempty]
            show _ = readingFrom (if line.isEmpty then _ else _)
            rw [if_neg hempty]
            by_cases hdecodes : Decodes line
            · obtain ⟨text, htext⟩ := hdecodes
              rw [decoded_of_decodes htext, Source.readLine, htext]
              rfl
            · rw [decoded_of_not_decodes hdecodes, Source.readLine_of_not_decodes hdecodes]
              rfl

end Reader

/-! ### One request -/

namespace LineStream

variable {s after : LineStream} {answer : Option (Except AccessError Char)} {lines : List String}

/-- A stream that has given up. -/
def closed (s : LineStream) (reader : Reader) : LineStream := { s with reader, done := true }

/-- How a stream answers a request, and what it is after it. -/
inductive Answers : LineStream → Option (Except AccessError Char) → LineStream → Prop where
  | delivered {s : LineStream} {c : Char} {line : List Char} (hline : s.line = c :: line) :
      Answers s (some (.ok c)) { s with line, here := s.here.after c }
  | refilled {s after : LineStream} {answer : Option (Except AccessError Char)} {line : String} {reader : Reader}
      (hline : s.line = []) (hdone : s.done = false) (hread : s.reader.readLine = (.ok (some line), reader))
      (h : Answers (s.holding line reader) answer after) : Answers s answer after
  | ended {s after : LineStream} {answer : Option (Except AccessError Char)} {reader : Reader} (hline : s.line = [])
      (hdone : s.done = false) (hread : s.reader.readLine = (.ok none, reader)) (h : Answers (s.closed reader) answer after) :
      Answers s answer after
  | failed {s : LineStream} {error : AccessError} {reader : Reader} (hline : s.line = []) (hdone : s.done = false)
      (hread : s.reader.readLine = (.error error, reader)) : Answers s (some (.error error)) (s.closed reader)
  | silent {s : LineStream} (hline : s.line = []) (hdone : s.done = true) : Answers s none s

/-- **There is nothing else that a stream can do.** -/
theorem answers_next? (s : LineStream) : Answers s s.next?.1 s.next?.2 := by
  fun_induction next? s with
  | case1 s c line hline => exact .delivered hline
  | case2 s hline hdone => exact .silent hline hdone
  | case3 s hline hdone filled hrefill ih =>
      rw [Bool.not_eq_true] at hdone
      unfold refill at hrefill
      split at hrefill <;> cases hrefill
      exact .refilled hline hdone ‹_› ih
  | case4 s hline hdone ended hrefill ih =>
      rw [Bool.not_eq_true] at hdone
      unfold refill at hrefill
      split at hrefill <;> cases hrefill
      exact .ended hline hdone ‹_› ih
  | case5 s hline hdone error failed hrefill =>
      rw [Bool.not_eq_true] at hdone
      unfold refill at hrefill
      split at hrefill <;> cases hrefill
      exact .failed hline hdone ‹_›

/-! ### What is left of a stream -/

/-- The lines that a stream has not yet read, and the error behind them. -/
def left (s : LineStream) : Reading := if s.done then ⟨[], none⟩ else s.reader.reading

/-- All that a stream still delivers. -/
def view (s : LineStream) : CharStream :=
  { source := s.source, rest := s.line ++ s.left.chars, failure := s.left.failure, here := s.here }

theorem left_eq (hdone : s.done = false) : s.left = Reader.readingFrom s.reader.readLine := by
  rw [left, hdone, if_neg Bool.false_ne_true, Reader.reading_eq]

theorem left_of_done (hdone : s.done = true) : s.left = ⟨[], none⟩ := if_pos hdone

theorem left_holding (hdone : s.done = false) (line : String) (reader : Reader) :
    (s.holding line reader).left = reader.reading := by
  show (if s.done then _ else _) = _
  rw [hdone, if_neg Bool.false_ne_true]
  rfl

theorem view_closed (s : LineStream) (reader : Reader) : (s.closed reader).view = ⟨s.source, s.line, none, s.here⟩ := by
  rw [view, left_of_done (s := s.closed reader) rfl]
  exact congrArg (fun rest => (⟨s.source, rest, none, s.here⟩ : CharStream)) (List.append_nil s.line)

/-- A line that is read has been in front of what was left, and is in front of what is left. -/
theorem view_holding (hline : s.line = []) (hdone : s.done = false) {line : String} {reader : Reader}
    (hread : s.reader.readLine = (.ok (some line), reader)) : (s.holding line reader).view = s.view := by
  rw [view, view, left_holding hdone, left_eq hdone, hread, hline]
  simp [holding, Reader.readingFrom, Reading.chars]

theorem view_of_ended (hline : s.line = []) (hdone : s.done = false) {reader : Reader}
    (hread : s.reader.readLine = (.ok none, reader)) : s.view = ⟨s.source, [], none, s.here⟩ := by
  rw [view, left_eq hdone, hread, hline]
  rfl

theorem view_of_failed (hline : s.line = []) (hdone : s.done = false) {error : AccessError} {reader : Reader}
    (hread : s.reader.readLine = (.error error, reader)) : s.view = ⟨s.source, [], some error, s.here⟩ := by
  rw [view, left_eq hdone, hread, hline]
  rfl

theorem view_of_done (hline : s.line = []) (hdone : s.done = true) : s.view = ⟨s.source, [], none, s.here⟩ := by
  rw [view, left_of_done hdone, hline]
  rfl

/-- What a request does to all that is left. -/
theorem Answers.view_eq (h : Answers s answer after) :
    answer = s.view.next?.map Prod.fst ∧ after.view = (s.view.next?.map Prod.snd).getD s.view := by
  induction h with
  | @delivered s c line hline =>
      have hnext : s.view.next? = some (.ok c, view { s with line, here := s.here.after c }) := by
        rw [view, hline]
        rfl
      rw [hnext]
      exact ⟨rfl, rfl⟩
  | refilled hline hdone hread h ih => rwa [view_holding hline hdone hread] at ih
  | ended hline hdone hread h ih => rwa [view_closed, hline, ← view_of_ended hline hdone hread] at ih
  | failed hline hdone hread =>
      rw [view_of_failed hline hdone hread, view_closed, hline]
      exact ⟨rfl, rfl⟩
  | silent hline hdone =>
      rw [view_of_done hline hdone]
      exact ⟨rfl, rfl⟩

/-- **A stream that is read line by line cannot be told from all that it delivers.** -/
theorem next?_view (s : LineStream) :
    s.next?.1 = s.view.next?.map Prod.fst ∧ s.next?.2.view = (s.view.next?.map Prod.snd).getD s.view :=
  s.answers_next?.view_eq

/-! ### Recorded lines -/

/-- What holds of a stream over some lines: they have been recorded or are still left, and the current line, if there is
one, is the last that has been recorded. -/
structure Over (lines : List String) (s : LineStream) : Prop where
  lines_eq : s.recorded.toList ++ s.left.lines = lines
  line : s.line = [] ∨ ∃ front, s.line = front ++ ['\n'] ∧ '\n' ∉ front
  positive : 1 ≤ s.here.line
  count : s.recorded.size = if s.line = [] then s.here.line - 1 else s.here.line

theorem Over.recorded_eq (h : Over lines s) : s.recorded.toList = lines.take s.recorded.size := by
  rw [← h.lines_eq, ← Array.length_toList, List.take_left]

theorem Over.delivered (h : Over lines s) {c : Char} {line : List Char} (hline : s.line = c :: line) :
    Over lines { s with line, here := s.here.after c } := by
  have hcount := h.count
  have hpositive := h.positive
  rw [hline, if_neg (List.cons_ne_nil c line)] at hcount
  obtain hnil | ⟨front, hfront, hbreaks⟩ := h.line
  · cases hline.symm.trans hnil
  · rw [hline] at hfront
    cases front with
    | nil =>
        obtain ⟨rfl, rfl⟩ := List.cons.inj hfront
        exact ⟨h.lines_eq, .inl rfl, Nat.le_add_left 1 _, hcount⟩
    | cons d front =>
        rw [List.cons_append] at hfront
        obtain ⟨rfl, rfl⟩ := List.cons.inj hfront
        rw [List.mem_cons, not_or] at hbreaks
        have hhere : (s.here.after c).line = s.here.line := Position.after_line (Ne.symm hbreaks.1)
        refine ⟨h.lines_eq, .inr ⟨front, rfl, hbreaks.2⟩, hhere.symm ▸ hpositive, ?_⟩
        rw [if_neg (List.append_ne_nil_of_right_ne_nil _ (List.cons_ne_nil _ _)), hhere]
        exact hcount

theorem Over.holding (h : Over lines s) (hlines : ∀ line ∈ lines, '\n' ∉ line.toList) (hline : s.line = [])
    (hdone : s.done = false) {line : String} {reader : Reader} (hread : s.reader.readLine = (.ok (some line), reader)) :
    Over lines (s.holding line reader) := by
  have hleft := h.lines_eq
  have hcount := h.count
  have hpositive := h.positive
  rw [left_eq hdone, hread, Reader.readingFrom] at hleft
  rw [if_pos hline] at hcount
  refine ⟨?_, .inr ⟨_, rfl, hlines _ ?_⟩, hpositive, ?_⟩
  · rw [left_holding hdone, ← hleft]
    simp [LineStream.holding]
  · rw [← hleft]
    exact List.mem_append_right _ List.mem_cons_self
  · have hfull : (s.holding line reader).line ≠ [] := List.append_ne_nil_of_right_ne_nil _ (List.cons_ne_nil _ _)
    rw [if_neg hfull]
    show (s.recorded.push _).size = s.here.line
    rw [Array.size_push, hcount]
    omega

theorem Over.closed (h : Over lines s) (hleft : s.left.lines = []) (reader : Reader) : Over lines (s.closed reader) := by
  refine ⟨?_, h.line, h.positive, h.count⟩
  rw [left_of_done (s := s.closed reader) rfl, ← h.lines_eq, hleft]
  rfl

/-- A stream that has nothing left on its line has recorded the lines above its position. -/
theorem Over.recorded_of_view (h : Over lines s) (hline : s.line = []) (hrest : s.view.rest = []) :
    s.recorded.toList = lines.take s.view.linesSeen := by
  rw [h.recorded_eq, h.count, if_pos hline, CharStream.linesSeen, hrest]
  rfl

theorem Answers.over (hlines : ∀ line ∈ lines, '\n' ∉ line.toList) (h : Answers s answer after) (hover : Over lines s) :
    Over lines after ∧ after.recorded.toList = lines.take s.view.linesSeen := by
  induction h with
  | @delivered s c line hline =>
      refine ⟨hover.delivered hline, ?_⟩
      have hseen : s.view.linesSeen = s.here.line := by
        rw [view, hline]
        rfl
      show s.recorded.toList = _
      rw [hover.recorded_eq, hover.count, hline, if_neg (List.cons_ne_nil c line), hseen]
  | refilled hline hdone hread h ih =>
      rw [← view_holding hline hdone hread]
      exact ih (hover.holding hlines hline hdone hread)
  | @ended s after answer reader hline hdone hread h ih =>
      have hleft : s.left.lines = [] := by
        rw [left_eq hdone, hread]
        rfl
      rw [view_of_ended hline hdone hread, ← hline, ← view_closed s reader]
      exact ih (hover.closed hleft reader)
  | @failed s error reader hline hdone hread =>
      have hleft : s.left.lines = [] := by
        rw [left_eq hdone, hread]
        rfl
      refine ⟨hover.closed hleft reader, hover.recorded_of_view hline ?_⟩
      rw [view_of_failed hline hdone hread]
  | silent hline hdone =>
      refine ⟨hover, hover.recorded_of_view hline ?_⟩
      rw [view_of_done hline hdone]

/-- **Lines are recorded when they are read**, which is when their first character is asked for. -/
theorem Over.next? (hlines : ∀ line ∈ lines, '\n' ∉ line.toList) (h : Over lines s) :
    Over lines s.next?.2 ∧ s.next?.2.recorded.toList = lines.take s.view.linesSeen :=
  s.answers_next?.over hlines h

end LineStream

end FormulaCompiler
