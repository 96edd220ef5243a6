import FormulaCompiler.Proofs.Source.Stream
import Mathlib.Data.List.Forall2

/-!
# Line ends

`RawLines` says on the bytes of a source which lines it has up to the first that cannot be read, each with all that
ends it. A source delivers these lines `Stripped` of their carriage returns and line breaks and with one line break
behind each (`delivers_stripped`), so neither carriage returns in front of the line breaks nor a line break behind
the last line make a difference (`lines_crlf`, `lines_push_newline`), and what is delivered is delivered again when
it is read itself (`lines_delivered`).
-/

namespace FormulaCompiler.Source

variable {failure : Option String} {bytes : List UInt8} {raws : List (List Char)} {ending : Option AccessError}
  {lines : List String}

/-- Which lines the bytes of a source have up to the first that cannot be read, each with the line break behind it, and
with which error that one cannot. Only the last line may have no line break. -/
inductive RawLines (failure : Option String) : List UInt8 → List (List Char) → Option AccessError → Prop where
  | ended (hfailure : failure = none) : RawLines failure [] [] none
  | last {line : List Char} (hline : '\n' ∉ line) (hne : line ≠ []) (hfailure : failure = none) :
      RawLines failure (encoded line) [line] none
  | line {line : List Char} {bytes : List UInt8} {raws : List (List Char)} {ending : Option AccessError}
      (hline : '\n' ∉ line) (h : RawLines failure bytes raws ending) :
      RawLines failure (encoded line ++ 0x0a :: bytes) ((line ++ ['\n']) :: raws) ending
  | failed {bytes : List UInt8} {error : AccessError} (h : FirstFailure failure bytes [] error) :
      RawLines failure bytes [] (some error)

theorem exists_rawLines (failure : Option String) (bytes : List UInt8) :
    ∃ raws ending, RawLines failure bytes raws ending := by
  induction bytes using Text.lines_induction (0x0a : UInt8) with
  | further line more hline ih =>
      by_cases hdecodes : Decodes line
      · obtain ⟨text, htext⟩ := hdecodes
        obtain ⟨raws, ending, hmore⟩ := ih
        rw [eq_encoded_of_decoded htext]
        exact ⟨_, _, .line (mt (mem_bytes_of_newline htext) hline) hmore⟩
      · exact ⟨_, _, .failed (.undecoded hline hdecodes more)⟩
  | last line hline =>
      cases hfailure : failure with
      | some message => exact ⟨_, _, .failed (.cut hline rfl)⟩
      | none =>
          by_cases hdecodes : Decodes line
          · obtain ⟨text, htext⟩ := hdecodes
            rw [eq_encoded_of_decoded htext]
            by_cases hne : text.toList = []
            · rw [hne]
              exact ⟨_, _, .ended rfl⟩
            · exact ⟨_, _, .last (mt (mem_bytes_of_newline htext) hline) hne rfl⟩
          · exact ⟨_, _, .failed (.lastUndecoded hline hdecodes rfl)⟩

/-- What is read are the lines without their ends. -/
theorem RawLines.exists_lines (h : RawLines failure bytes raws ending) :
    ∃ lines, readPieces failure (pieces bytes) = ⟨lines, ending⟩ ∧ List.Forall₂ Stripped raws lines := by
  have hstripped (line : List Char) : Stripped line (trimmed (String.ofList line)) := by
    have h := stripped_trimmed (String.ofList line)
    rwa [String.toList_ofList] at h
  induction h with
  | ended hfailure =>
      rw [hfailure]
      exact ⟨[], rfl, .nil⟩
  | @last line hline hne hfailure =>
      rw [hfailure, readPieces_encoded, Text.lines_of_notMem hline hne]
      exact ⟨_, rfl, .cons (hstripped line) .nil⟩
  | @line line bytes raws ending hline h ih =>
      obtain ⟨lines, hreading, hlines⟩ := ih
      rw [readPieces_append failure (mt newline_mem_of_encoded hline), hreading, readLine_encoded]
      exact ⟨_, rfl, .cons ((hstripped line).concat (.inr rfl)) hlines⟩
  | failed h =>
      obtain ⟨lines, hlength, hreading, -⟩ := exists_lines_of_firstFailure h
      obtain rfl := List.eq_nil_of_length_eq_zero hlength
      exact ⟨[], hreading, .nil⟩

/-! ### How far the places go -/

theorem RawLines.length_le (h : RawLines failure bytes raws ending) : raws.length ≤ raws.flatten.length := by
  induction h with
  | ended => exact Nat.le_refl _
  | last hline hne =>
      rw [List.flatten_singleton]
      exact List.length_pos_iff.2 hne
  | line hline h ih =>
      rw [List.flatten_cons, List.length_append, List.length_append, List.length_cons, List.length_singleton]
      omega
  | failed => exact Nat.le_refl _

theorem count_delivered (hlines : ∀ line ∈ lines, '\n' ∉ line.toList) : (delivered lines).count '\n' = lines.length := by
  induction lines with
  | nil => rfl
  | cons line lines ih =>
      rw [List.forall_mem_cons] at hlines
      rw [delivered, List.flatMap_cons, List.count_append, List.count_append, List.count_eq_zero_of_not_mem hlines.1,
        List.length_cons, ← ih hlines.2, Nat.zero_add, Nat.add_comm]
      rfl

theorem countP_delivered_le (h : List.Forall₂ Stripped raws lines) :
    (delivered lines).countP (· ≠ '\n') ≤ raws.flatten.length := by
  induction h with
  | nil => exact Nat.le_refl _
  | @cons raw line raws lines hstripped h ih =>
      obtain ⟨tail, rfl, -⟩ := hstripped.tail
      have hline : line.toList.countP (· ≠ '\n') ≤ line.toList.length := List.countP_le_length
      have hbreak : ['\n'].countP (· ≠ '\n') = 0 := rfl
      rw [delivered, List.flatMap_cons, List.countP_append, List.countP_append, hbreak, List.flatten_cons,
        List.length_append, List.length_append]
      exact Nat.add_le_add (Nat.le_trans hline (Nat.le_add_right _ _)) ih

/-- Whether both numbers of a position have 32 bits at most. -/
def Fits (p : Position) : Prop := p.line < 0x100000000 ∧ p.column < 0x100000000

theorem fits_place {s : Source} (h : RawLines s.failure s.bytes.data.toList raws ending)
    (hstripped : List.Forall₂ Stripped raws s.reading.lines) (hlength : raws.flatten.length < 0x40000000) (n : Nat) :
    Fits ((LineStream.ofSource s).after n).place.start ∧ Fits ((LineStream.ofSource s).after n).place.stop := by
  have hsublist := List.take_sublist n (delivered s.reading.lines)
  have hplace := s.delivers.place n
  have hline : (Position.across {} ((delivered s.reading.lines).take n)).line =
      1 + ((delivered s.reading.lines).take n).count '\n' := Position.line_across {} _
  have hcount : ((delivered s.reading.lines).take n).count '\n' ≤ raws.flatten.length := by
    calc ((delivered s.reading.lines).take n).count '\n'
      _ ≤ (delivered s.reading.lines).count '\n' := hsublist.count_le '\n'
      _ = raws.length := (count_delivered s.newline_notMem_lines).trans hstripped.length_eq.symm
      _ ≤ raws.flatten.length := h.length_le
  have hcolumn := Position.column_across_le (p := {}) (n := 0) (Nat.le_refl 1) ((delivered s.reading.lines).take n)
  have hcountP : ((delivered s.reading.lines).take n).countP (· ≠ '\n') ≤ raws.flatten.length :=
    Nat.le_trans hsublist.countP_le (countP_delivered_le hstripped)
  rw [hplace]
  refine ⟨⟨?_, ?_⟩, ⟨?_, ?_⟩⟩
  · show (Position.across {} _).line < _
    omega
  · show (Position.across {} _).column < _
    omega
  · show (Position.across {} _).line < _
    omega
  · show (Position.across {} _).column + 1 < _
    omega

/-! ### Ends that make no difference -/

/-- A text with a carriage return in front of every line break. -/
def crlf (text : String) : String := String.ofList (text.toList.flatMap fun c => if c = '\n' then ['\r', '\n'] else [c])

theorem flatMap_of_notMem {line : List Char} (hline : '\n' ∉ line) :
    (line.flatMap fun c => if c = '\n' then ['\r', '\n'] else [c]) = line := by
  induction line with
  | nil => rfl
  | cons c line ih =>
      rw [List.mem_cons, not_or] at hline
      rw [List.flatMap_cons, if_neg (Ne.symm hline.1), ih hline.2]
      rfl

theorem lines_crlf (name text : String) : (ofText name (crlf text)).reading.lines = (ofText name text).reading.lines := by
  rw [reading_ofText, reading_ofText, crlf, String.toList_ofList]
  generalize text.toList = chars
  induction chars using Text.lines_induction '\n' with
  | last line hline => rw [flatMap_of_notMem hline]
  | further line more hline ih =>
      have hreturn : '\n' ∉ line ++ ['\r'] := by simpa using hline
      have hstripped := (stripped_trimmed (String.ofList line)).concat (.inl rfl)
      rw [String.toList_ofList] at hstripped
      rw [List.flatMap_append, flatMap_of_notMem hline, List.flatMap_cons, if_pos rfl, List.cons_append, List.append_cons,
        List.singleton_append, Text.lines_append hreturn, Text.lines_append hline]
      exact congrArg₂ List.cons (trimmed_of_stripped hstripped) ih

theorem lines_push_newline (name : String) {text : String} {c : Char} (hlast : text.toList.getLast? = some c)
    (hc : c ≠ '\n') : (ofText name (text.push '\n')).reading.lines = (ofText name text).reading.lines := by
  rw [reading_ofText, reading_ofText, String.toList_push]
  generalize text.toList = chars at hlast
  have hlines : Text.lines (chars ++ ['\n']) = Text.lines chars := by
    induction chars using Text.lines_induction '\n' with
    | last line hline =>
        have hne : line ≠ [] := by
          rintro rfl
          cases hlast
        rw [Text.lines_append hline, Text.lines_of_notMem hline hne]
        rfl
    | further line more hline ih =>
        cases more with
        | nil =>
            rw [List.getLast?_concat, Option.some_inj] at hlast
            exact absurd hlast.symm hc
        | cons d more =>
            rw [List.getLast?_append_cons, List.getLast?_cons_cons] at hlast
            rw [List.append_assoc, List.cons_append, Text.lines_append hline, Text.lines_append hline, ih hlast]
  rw [hlines]

theorem lines_delivered (name : String) (hstripped : List.Forall₂ Stripped raws lines)
    (hlines : ∀ line ∈ lines, '\n' ∉ line.toList) :
    (ofText name (String.ofList (delivered lines))).reading.lines = lines := by
  have htext : delivered lines = (lines.map String.toList).flatMap fun line => line ++ ['\n'] := by
    rw [List.flatMap_map]
    rfl
  have hkept : lines.map (fun line => trimmed (String.ofList line.toList)) = lines := by
    clear hlines htext
    induction hstripped with
    | nil => rfl
    | cons hline h ih => rw [List.map_cons, ih, String.ofList_toList, trimmed_eq_self hline.last]
  rw [reading_ofText, String.toList_ofList, htext, Text.lines_flatMap (List.forall_mem_map.2 hlines), List.map_map]
  exact hkept

/-- **A source delivers its lines stripped of their ends, every character in its place.** The lines are recorded as they
are delivered, and the first that cannot be read ends the source. Unless there are so many characters that a number of
a position would take more than 32 bits, this is all that is seen of a source. -/
theorem delivers_stripped (s : Source) :
    ∃ raws, RawLines s.failure s.bytes.data.toList raws s.reading.failure ∧
      List.Forall₂ Stripped raws s.reading.lines ∧
      (LineStream.ofSource s).Delivers (delivered s.reading.lines) s.reading.failure ∧
      (∀ m n, m < n → n ≤ (delivered s.reading.lines).length →
        ((LineStream.ofSource s).after m).place.start < ((LineStream.ofSource s).after n).place.start) ∧
      (raws.flatten.length < 0x40000000 → ∀ n, Fits ((LineStream.ofSource s).after n).place.start ∧
        Fits ((LineStream.ofSource s).after n).place.stop) ∧
      s.Records s.reading.lines ∧
      (∀ other : Source, other.name = s.name → other.reading.lines = s.reading.lines → s.Alike other) ∧
      (∀ text, s = ofText s.name text → s.Alike (ofText s.name (crlf text)) ∧
        ∀ c, text.toList.getLast? = some c → c ≠ '\n' → s.Alike (ofText s.name (text.push '\n'))) ∧
      s.Alike (ofText s.name (String.ofList (delivered s.reading.lines))) := by
  obtain ⟨raws, ending, hraws⟩ := exists_rawLines s.failure s.bytes.data.toList
  obtain ⟨lines, hreading, hstripped⟩ := hraws.exists_lines
  obtain rfl : s.reading.lines = lines := congrArg Reading.lines hreading
  obtain rfl : s.reading.failure = ending := congrArg Reading.failure hreading
  refine ⟨raws, hraws, hstripped, s.delivers, fun m n => s.delivers.here_lt, fits_place hraws hstripped, s.records,
    fun other hname hlines => alike_of_lines hname.symm hlines.symm, fun text htext => ?_,
    alike_of_lines rfl (lines_delivered s.name hstripped s.newline_notMem_lines).symm⟩
  have hlines : s.reading.lines = (ofText s.name text).reading.lines := congrArg (fun source => source.reading.lines) htext
  refine ⟨alike_of_lines rfl (hlines.trans (lines_crlf s.name text).symm), fun c hlast hc => ?_⟩
  exact alike_of_lines rfl (hlines.trans (lines_push_newline s.name hlast hc).symm)

theorem delivers_stripped_mixed :
    (ofText "mixed" "a\n\tb\n").reading.lines = (ofText "mixed" "a\r\n\tb\r").reading.lines ∧
      (ofText "mixed" "a\r\n\tb\r").Alike (ofText "mixed" "a\n\tb\n") ∧
      (LineStream.ofSource (ofText "mixed" "a\r\n\tb\r")).answer? 2 = some (.ok '\t') ∧
      ((LineStream.ofSource (ofText "mixed" "a\r\n\tb\r")).after 3).place.start = ⟨2, 5⟩ ∧
      ((LineStream.ofSource (ofText "mixed" "a\r\n\tb\r")).after 1).place.start <
        ((LineStream.ofSource (ofText "mixed" "a\r\n\tb\r")).after 5).place.start ∧
      (ofText "mixed" "a\r\n\tb\r").recorded 3 = ["a", "\tb"] ∧
      (LineStream.ofSource (ofText "mixed" "a\r\n\tb\r")).answer? 7 = none := by
  have hsame : (ofText "mixed" "a\n\tb\n").reading.lines = (ofText "mixed" "a\r\n\tb\r").reading.lines := by decide +kernel
  have hlines : (ofText "mixed" "a\r\n\tb\r").reading.lines = ["a", "\tb"] := by decide +kernel
  obtain ⟨-, -, -, hdelivers, hlt, -, hrecords, halike, -, -⟩ := delivers_stripped (ofText "mixed" "a\r\n\tb\r")
  rw [hlines] at hdelivers hlt hrecords
  exact ⟨hsame, halike _ rfl hsame, hdelivers.char 2 '\t' rfl, congrArg Span.start (hdelivers.place 3),
    hlt 1 5 (by decide) (by decide), hrecords.upTo ["a"] "\tb" [] [] '\t' ['b', '\n'] rfl rfl, hdelivers.silence 7 (by decide)⟩

end FormulaCompiler.Source
