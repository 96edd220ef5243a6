import FormulaCompiler.Proofs.TextLines
import FormulaCompiler.Source

/-!
# Lines of a source

What is read as a line never has a line break in it, since the bytes of a source are cut at every line
break before they are decoded (`newline_notMem_lines`). A source that is given as a text can be read, and
what is read are the lines of the text (`reading_ofText`).
-/

namespace FormulaCompiler.Source

variable {bytes more : List UInt8}

/-! ### Pieces -/

theorem pieces_newline (bytes : List UInt8) : pieces (0x0a :: bytes) = [] :: pieces bytes := by
  rw [pieces, List.foldr_cons, if_pos rfl]
  rfl

theorem pieces_cons {byte : UInt8} (hbyte : byte ≠ 0x0a) {piece : List UInt8} {others : List (List UInt8)}
    (hpieces : pieces bytes = piece :: others) : pieces (byte :: bytes) = (byte :: piece) :: others := by
  rw [pieces] at hpieces
  rw [pieces, List.foldr_cons, if_neg hbyte, hpieces]

theorem exists_pieces (bytes : List UInt8) : ∃ piece others, pieces bytes = piece :: others := by
  induction bytes with
  | nil => exact ⟨[], [], rfl⟩
  | cons byte bytes ih =>
      by_cases hbyte : byte = 0x0a
      · rw [hbyte]
        exact ⟨_, _, pieces_newline bytes⟩
      · obtain ⟨piece, others, hpieces⟩ := ih
        exact ⟨_, _, pieces_cons hbyte hpieces⟩

theorem newline_notMem_pieces (bytes : List UInt8) : ∀ piece ∈ pieces bytes, 0x0a ∉ piece := by
  induction bytes with
  | nil => simp [pieces]
  | cons byte bytes ih =>
      by_cases hbyte : byte = 0x0a
      · rw [hbyte, pieces_newline, List.forall_mem_cons]
        exact ⟨List.not_mem_nil, ih⟩
      · obtain ⟨piece, others, hpieces⟩ := exists_pieces bytes
        rw [hpieces, List.forall_mem_cons] at ih
        rw [pieces_cons hbyte hpieces, List.forall_mem_cons, List.mem_cons, not_or]
        exact ⟨⟨Ne.symm hbyte, ih.1⟩, ih.2⟩

theorem pieces_append (h : 0x0a ∉ bytes) : pieces (bytes ++ 0x0a :: more) = bytes :: pieces more := by
  induction bytes with
  | nil => exact pieces_newline more
  | cons byte bytes ih =>
      rw [List.mem_cons, not_or] at h
      exact pieces_cons (Ne.symm h.1) (ih h.2)

theorem pieces_of_notMem (h : 0x0a ∉ bytes) : pieces bytes = [bytes] := by
  induction bytes with
  | nil => rfl
  | cons byte bytes ih =>
      rw [List.mem_cons, not_or] at h
      exact pieces_cons (Ne.symm h.1) (ih h.2)

/-! ### Lines -/

/-- The characters of a text as bytes. -/
def encoded (chars : List Char) : List UInt8 := chars.flatMap String.utf8EncodeChar

theorem decoded_encoded (chars : List Char) :
    String.fromUTF8? ⟨(encoded chars).toArray⟩ = some (String.ofList chars) := by
  have hbytes : (⟨(encoded chars).toArray⟩ : ByteArray) = (String.ofList chars).toByteArray := by
    rw [String.toByteArray_ofList, List.utf8Encode, ← List.data_toByteArray]
    rfl
  rw [hbytes, String.fromUTF8?, dif_pos (String.ofList chars).isValidUTF8]
  rfl

theorem eq_encoded_of_decoded {line : String} (hline : String.fromUTF8? ⟨bytes.toArray⟩ = some line) :
    bytes = encoded line.toList := by
  have hbytes : line.toByteArray = ⟨bytes.toArray⟩ := by
    unfold String.fromUTF8? at hline
    split at hline
    · exact congrArg String.toByteArray (Option.some.inj hline).symm
    · simp at hline
  have hdata := congrArg (fun array : ByteArray => array.data.toList) (hbytes ▸ String.utf8Encode_toList (b := line))
  rw [List.utf8Encode] at hdata
  simpa [encoded, List.data_toByteArray] using hdata.symm

/-- The bytes of a line break stand only for a line break. -/
theorem mem_bytes_of_newline {line : String} (hline : String.fromUTF8? ⟨bytes.toArray⟩ = some line)
    (hmem : '\n' ∈ line.toList) : 0x0a ∈ bytes := by
  rw [eq_encoded_of_decoded hline]
  exact List.mem_flatMap.2 ⟨'\n', hmem, by decide⟩

/-- Whether a text is what is left of some characters without the carriage returns and line breaks at their end. -/
structure Stripped (raw : List Char) (line : String) : Prop where
  tail : ∃ tail, raw = line.toList ++ tail ∧ ∀ c ∈ tail, c = '\r' ∨ c = '\n'
  last : ∀ c, line.toList.getLast? = some c → c ≠ '\r' ∧ c ≠ '\n'

theorem stripped_trimmed (line : String) : Stripped line.toList (trimmed line) := by
  refine ⟨⟨(line.toList.reverse.takeWhile fun c => c = '\r' || c = '\n').reverse, ?_, ?_⟩, ?_⟩
  · rw [trimmed, String.toList_ofList, ← List.reverse_append, List.takeWhile_append_dropWhile, List.reverse_reverse]
  · intro c hmem
    simpa using List.all_eq_true.1 List.all_takeWhile c (List.mem_reverse.1 hmem)
  · intro c hlast
    rw [trimmed, String.toList_ofList, List.getLast?_reverse] at hlast
    have hkept := List.head?_dropWhile_not (fun c => decide (c = '\r') || decide (c = '\n')) line.toList.reverse
    rw [hlast] at hkept
    simpa using hkept

theorem Stripped.concat {raw : List Char} {line : String} (h : Stripped raw line) {c : Char} (hc : c = '\r' ∨ c = '\n') :
    Stripped (raw ++ [c]) line := by
  obtain ⟨⟨tail, hraw, htail⟩, hlast⟩ := h
  refine ⟨⟨tail ++ [c], by rw [hraw, List.append_assoc], ?_⟩, hlast⟩
  rw [List.forall_mem_append]
  exact ⟨htail, List.forall_mem_singleton.2 hc⟩

/-- Nothing else is left of them. -/
theorem trimmed_of_stripped {raw : List Char} {line : String} (h : Stripped raw line) :
    trimmed (String.ofList raw) = line := by
  obtain ⟨⟨tail, rfl, htail⟩, hlast⟩ := h
  have hlost : ∀ c ∈ tail.reverse, (decide (c = '\r') || decide (c = '\n')) = true := by
    intro c hmem
    simpa using htail c (List.mem_reverse.1 hmem)
  have hkept : line.toList.reverse.dropWhile (fun c => decide (c = '\r') || decide (c = '\n')) = line.toList.reverse := by
    cases hreverse : line.toList.reverse with
    | nil => rfl
    | cons c others =>
        obtain ⟨hreturn, hbreak⟩ := hlast c (by rw [← List.head?_reverse, hreverse, List.head?_cons])
        exact List.dropWhile_cons_of_neg (by simp [hreturn, hbreak])
  rw [trimmed, String.toList_ofList, List.reverse_append, List.dropWhile_append_of_pos hlost, hkept, List.reverse_reverse,
    String.ofList_toList]

theorem mem_of_mem_trimmed {line : String} {c : Char} (h : c ∈ (trimmed line).toList) : c ∈ line.toList := by
  obtain ⟨tail, htail, -⟩ := (stripped_trimmed line).tail
  rw [htail]
  exact List.mem_append_left _ h

theorem newline_notMem_readPieces {failure : Option String} {pieces : List (List UInt8)}
    (hpieces : ∀ piece ∈ pieces, 0x0a ∉ piece) :
    ∀ line ∈ (readPieces failure pieces).lines, '\n' ∉ line.toList := by
  have hreadLine {bytes : List UInt8} {later : Reading} (hbytes : 0x0a ∉ bytes)
      (hlater : ∀ line ∈ later.lines, '\n' ∉ line.toList) :
      ∀ line ∈ (readLine bytes later).lines, '\n' ∉ line.toList := by
    unfold readLine
    split
    · simp
    · rename_i line hline
      rw [List.forall_mem_cons]
      exact ⟨fun hmem => hbytes (mem_bytes_of_newline hline (mem_of_mem_trimmed hmem)), hlater⟩
  induction pieces with
  | nil => simp [readPieces]
  | cons piece others ih =>
      rw [List.forall_mem_cons] at hpieces
      cases others with
      | nil =>
          cases failure with
          | some message => simp [readPieces]
          | none =>
              change ∀ line ∈ (if piece.isEmpty then ⟨[], none⟩ else readLine piece ⟨[], none⟩ : Reading).lines, _
              split
              · simp
              · exact hreadLine hpieces.1 (by simp)
      | cons next others => exact hreadLine hpieces.1 (ih hpieces.2)

/-- **A line has no line break in it.** -/
theorem newline_notMem_lines (s : Source) : ∀ line ∈ s.reading.lines, '\n' ∉ line.toList :=
  newline_notMem_readPieces (newline_notMem_pieces _)

/-- The bytes in front of the first line break are read as a line of their own. -/
theorem readPieces_append (failure : Option String) (h : 0x0a ∉ bytes) :
    readPieces failure (pieces (bytes ++ 0x0a :: more)) = readLine bytes (readPieces failure (pieces more)) := by
  obtain ⟨piece, others, hpieces⟩ := exists_pieces more
  rw [pieces_append h, hpieces]
  rfl

/-! ### Texts -/

theorem newline_mem_of_utf8EncodeChar {c : Char} (h : 0x0a ∈ String.utf8EncodeChar c) : c = '\n' := by
  have hbyte {n : Nat} (hn : n < 256) (heq : (0x0a : UInt8) = UInt8.ofNat n) : n = 10 := by
    rw [← UInt8.toNat_inj, UInt8.toNat_ofNat_of_lt' hn] at heq
    exact heq.symm
  have hval : c.val.toNat = 10 := by
    unfold String.utf8EncodeChar at h
    simp only at h
    -- Past the first 128 characters every byte is at least 0x80.
    repeat' split at h
    all_goals simp only [List.mem_cons, List.not_mem_nil, or_false] at h
    · exact hbyte (by omega) h
    · rcases h with h | h <;> have := hbyte (by omega) h <;> omega
    · rcases h with h | h | h <;> have := hbyte (by omega) h <;> omega
    · rcases h with h | h | h | h <;> have := hbyte (by omega) h <;> omega
  apply Char.ext
  rw [← UInt32.toNat_inj, hval]
  rfl

theorem newline_mem_of_encoded {chars : List Char} (h : 0x0a ∈ encoded chars) : '\n' ∈ chars := by
  obtain ⟨c, hmem, hc⟩ := List.mem_flatMap.1 h
  rwa [← newline_mem_of_utf8EncodeChar hc]

theorem readLine_encoded (chars : List Char) (later : Reading) :
    readLine (encoded chars) later = { later with lines := trimmed (String.ofList chars) :: later.lines } := by
  rw [readLine, decoded_encoded]

theorem encoded_append (line more : List Char) :
    encoded (line ++ '\n' :: more) = encoded line ++ 0x0a :: encoded more := by
  rw [encoded, List.flatMap_append, List.flatMap_cons]
  rfl

theorem readPieces_encoded (chars : List Char) :
    readPieces none (pieces (encoded chars)) =
      ⟨(Text.lines chars).map fun line => trimmed (String.ofList line), none⟩ := by
  induction chars using Text.lines_induction '\n' with
  | further line more hline ih =>
      have hencoded : 0x0a ∉ encoded line := mt newline_mem_of_encoded hline
      rw [encoded_append, readPieces_append none hencoded, ih, readLine_encoded, Text.lines_append hline, List.map_cons]
  | last chars hline =>
      have hencoded : 0x0a ∉ encoded chars := mt newline_mem_of_encoded hline
      rw [pieces_of_notMem hencoded]
      cases chars with
      | nil => rfl
      | cons c chars =>
          have hfull : (encoded (c :: chars)).isEmpty = false := by
            rw [encoded, List.flatMap_cons, List.isEmpty_eq_false_iff]
            exact List.append_ne_nil_of_left_ne_nil String.utf8EncodeChar_ne_nil _
          rw [readPieces, hfull, if_neg Bool.false_ne_true, readLine_encoded,
            Text.lines_of_notMem hline (List.cons_ne_nil c chars)]
          rfl

theorem bytes_ofText (name text : String) : (ofText name text).bytes.data.toList = encoded text.toList := by
  show text.toByteArray.data.toList = _
  rw [← String.utf8Encode_toList, List.utf8Encode, List.data_toByteArray]
  rfl

/-- **A text is readable, and its lines are read.** -/
theorem reading_ofText (name text : String) :
    (ofText name text).reading =
      ⟨(Text.lines text.toList).map fun line => trimmed (String.ofList line), none⟩ := by
  rw [reading, bytes_ofText]
  exact readPieces_encoded text.toList

/-- A line that does not end in a carriage return or a line break is left as it is. -/
theorem trimmed_eq_self {line : String} (hlast : ∀ c, line.toList.getLast? = some c → c ≠ '\r' ∧ c ≠ '\n') :
    trimmed line = line := by
  have h := trimmed_of_stripped ⟨⟨[], (List.append_nil line.toList).symm, fun c hmem => absurd hmem List.not_mem_nil⟩, hlast⟩
  rwa [String.ofList_toList] at h

/-- A text without line breaks is one line. -/
theorem reading_ofText_line (name : String) {text : String} (hne : text.toList ≠ [])
    (hbreaks : ∀ c ∈ text.toList, c ≠ '\r' ∧ c ≠ '\n') : (ofText name text).reading = ⟨[text], none⟩ := by
  rw [reading_ofText, Text.lines_of_notMem (fun hmem => (hbreaks _ hmem).2 rfl) hne, List.map_cons, List.map_nil,
    String.ofList_toList, trimmed_eq_self fun c hlast => hbreaks c (List.mem_of_getLast? hlast)]

end FormulaCompiler.Source
