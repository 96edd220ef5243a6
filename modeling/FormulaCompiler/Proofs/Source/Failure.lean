import FormulaCompiler.Proofs.Source

/-!
# The first line that cannot be read

`FirstFailure` says on the bytes of a source which line is the first that cannot be read, because it is not
UTF-8 or because the reader fails before its line break comes, and with which error. A source is read up to that
line, as if it ended in front of it, and no further (`exists_lines_of_firstFailure`); a source without such a
line is read as a whole (`exists_firstFailure`), and these sources are the texts (`readable_iff`).
-/

namespace FormulaCompiler.Source

/-- Whether the bytes of a line are UTF-8. -/
def Decodes (line : List UInt8) : Prop := ∃ text, String.fromUTF8? ⟨line.toArray⟩ = some text

/-- Behind some lines that can be read comes one that cannot. -/
inductive FirstFailure (failure : Option String) : List UInt8 → List (List UInt8) → AccessError → Prop where
  | later {line bytes : List UInt8} {before : List (List UInt8)} {error : AccessError} (hline : 0x0a ∉ line)
      (hdecodes : Decodes line) (h : FirstFailure failure bytes before error) :
      FirstFailure failure (line ++ 0x0a :: bytes) (line :: before) error
  | undecoded {line : List UInt8} (hline : 0x0a ∉ line) (hdecodes : ¬ Decodes line) (bytes : List UInt8) :
      FirstFailure failure (line ++ 0x0a :: bytes) [] .invalidText
  | lastUndecoded {line : List UInt8} (hline : 0x0a ∉ line) (hdecodes : ¬ Decodes line) (hfailure : failure = none) :
      FirstFailure failure line [] .invalidText
  | cut {line : List UInt8} (hline : 0x0a ∉ line) {message : String} (hfailure : failure = some message) :
      FirstFailure failure line [] (.reader message)

/-- Lines with their line breaks. -/
def joined (lines : List (List UInt8)) : List UInt8 := lines.flatMap fun line => line ++ [0x0a]

variable {failure : Option String} {line bytes : List UInt8} {before : List (List UInt8)} {error : AccessError}

theorem readLine_of_not_decodes (h : ¬ Decodes line) (later : Reading) : readLine line later = ⟨[], some .invalidText⟩ := by
  rw [readLine]
  split
  · rfl
  · exact absurd ⟨_, ‹_›⟩ h

theorem readPieces_last (hline : 0x0a ∉ line) : readPieces none (pieces line) =
    if line.isEmpty then ⟨[], none⟩ else readLine line ⟨[], none⟩ := by
  rw [pieces_of_notMem hline]
  rfl

theorem decodes_nil : Decodes [] := ⟨"", rfl⟩

/-- The lines in front of the failure are read, and they are those that would be read without it. -/
theorem exists_lines_of_firstFailure (h : FirstFailure failure bytes before error) :
    ∃ lines, lines.length = before.length ∧ readPieces failure (pieces bytes) = ⟨lines, some error⟩ ∧
      readPieces none (pieces (joined before)) = ⟨lines, none⟩ := by
  induction h with
  | @later line bytes before error hline hdecodes h ih =>
      obtain ⟨lines, hlength, hreading, hbefore⟩ := ih
      obtain ⟨text, htext⟩ := hdecodes
      have hjoined : joined (line :: before) = line ++ 0x0a :: joined before := by
        rw [joined, List.flatMap_cons, List.append_assoc]
        rfl
      refine ⟨trimmed text :: lines, congrArg (· + 1) hlength, ?_, ?_⟩
      · rw [readPieces_append failure hline, hreading, readLine, htext]
      · rw [hjoined, readPieces_append none hline, hbefore, readLine, htext]
  | undecoded hline hdecodes bytes =>
      refine ⟨[], rfl, ?_, rfl⟩
      rw [readPieces_append failure hline, readLine_of_not_decodes hdecodes]
  | @lastUndecoded line hline hdecodes hfailure =>
      have hne : line.isEmpty = false := by
        rw [List.isEmpty_eq_false_iff]
        rintro rfl
        exact hdecodes decodes_nil
      refine ⟨[], rfl, ?_, rfl⟩
      rw [hfailure, readPieces_last hline, hne, if_neg Bool.false_ne_true, readLine_of_not_decodes hdecodes]
  | cut hline hfailure =>
      refine ⟨[], rfl, ?_, rfl⟩
      rw [hfailure, pieces_of_notMem hline]
      rfl

/-- Nothing else keeps a source from being read. -/
theorem exists_firstFailure (bytes : List UInt8) (h : (readPieces failure (pieces bytes)).failure = some error) :
    ∃ before, FirstFailure failure bytes before error := by
  induction bytes using Text.lines_induction (0x0a : UInt8) with
  | further line more hline ih =>
      rw [readPieces_append failure hline] at h
      by_cases hdecodes : Decodes line
      · obtain ⟨text, htext⟩ := hdecodes
        rw [readLine, htext] at h
        obtain ⟨before, hfirst⟩ := ih h
        exact ⟨line :: before, .later hline ⟨text, htext⟩ hfirst⟩
      · rw [readLine_of_not_decodes hdecodes] at h
        cases h
        exact ⟨[], .undecoded hline hdecodes more⟩
  | last line hline =>
      cases failure with
      | some message =>
          rw [pieces_of_notMem hline] at h
          cases h
          exact ⟨[], .cut hline rfl⟩
      | none =>
          rw [readPieces_last hline] at h
          by_cases hdecodes : Decodes line
          · obtain ⟨text, htext⟩ := hdecodes
            rw [readLine, htext] at h
            split at h <;> cases h
          · rw [readLine_of_not_decodes hdecodes] at h
            split at h <;> cases h
            exact ⟨[], .lastUndecoded hline hdecodes rfl⟩

/-- Bytes that are read to their end are UTF-8. -/
theorem exists_encoded_of_readPieces (bytes : List UInt8) (h : (readPieces failure (pieces bytes)).failure = none) :
    failure = none ∧ ∃ chars, bytes = encoded chars := by
  induction bytes using Text.lines_induction (0x0a : UInt8) with
  | further line more hline ih =>
      rw [readPieces_append failure hline] at h
      by_cases hdecodes : Decodes line
      · obtain ⟨text, htext⟩ := hdecodes
        rw [readLine, htext] at h
        obtain ⟨hfailure, chars, hmore⟩ := ih h
        refine ⟨hfailure, text.toList ++ '\n' :: chars, ?_⟩
        rw [encoded_append, ← eq_encoded_of_decoded htext, ← hmore]
      · rw [readLine_of_not_decodes hdecodes] at h
        cases h
  | last line hline =>
      cases failure with
      | some message =>
          rw [pieces_of_notMem hline] at h
          cases h
      | none =>
          by_cases hdecodes : Decodes line
          · obtain ⟨text, htext⟩ := hdecodes
            exact ⟨rfl, text.toList, eq_encoded_of_decoded htext⟩
          · rw [readPieces_last hline, readLine_of_not_decodes hdecodes] at h
            split at h
            · rename_i hempty
              exact absurd decodes_nil (List.isEmpty_iff.1 hempty ▸ hdecodes)
            · cases h

/-- **The sources that can be read are the texts.** -/
theorem readable_iff {s : Source} : s.reading.failure = none ↔ ∃ text, s = ofText s.name text := by
  constructor
  · intro h
    obtain ⟨hfailure, chars, hchars⟩ := exists_encoded_of_readPieces _ h
    obtain ⟨name, bytes, failure⟩ := s
    obtain rfl : failure = none := hfailure
    have hbytes : bytes = (ofText name (String.ofList chars)).bytes := by
      rw [ByteArray.ext_iff, ← Array.toList_inj, bytes_ofText, String.toList_ofList]
      exact hchars
    exact ⟨String.ofList chars, congrArg (fun bytes => (⟨name, bytes, none⟩ : Source)) hbytes⟩
  · rintro ⟨text, htext⟩
    rw [htext, reading_ofText]

/-- A source of which only some lines are left. -/
def beginning (s : Source) (lines : List (List UInt8)) : Source := ⟨s.name, ⟨(joined lines).toArray⟩, none⟩

/-- Some lines of a source can be read, and with which error the next one cannot. -/
def FailsAfter (s : Source) (before : List (List UInt8)) (error : AccessError) : Prop :=
  FirstFailure s.failure s.bytes.data.toList before error

theorem FailsAfter.exists_lines {s : Source} (h : s.FailsAfter before error) :
    ∃ lines, lines.length = before.length ∧ s.reading = ⟨lines, some error⟩ ∧
      (s.beginning before).reading = ⟨lines, none⟩ :=
  exists_lines_of_firstFailure h

theorem readable_of_not_failsAfter {s : Source} (h : ∀ before error, ¬ s.FailsAfter before error) :
    s.reading.failure = none := by
  cases hfailure : s.reading.failure with
  | none => rfl
  | some error =>
      obtain ⟨before, hfirst⟩ := exists_firstFailure _ hfailure
      exact absurd hfirst (h before error)

end FormulaCompiler.Source
