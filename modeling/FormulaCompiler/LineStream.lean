import FormulaCompiler.Source

/-!
# Reading line by line

The characters of a source come out of a `LineStream`, which holds those of one line at a time. When
all of them have been delivered, the stream is refilled with the next line, and the line is recorded so
that it can be quoted. The stream is done for good when no line is left or a line cannot be read.
-/

namespace FormulaCompiler

/-- The bytes of a source that have not been read. With a `failure`, the reader reports that message where
the bytes end. -/
structure Reader where
  bytes : List UInt8
  failure : Option String

namespace Reader

/-- Bytes as a line, if they are UTF-8. -/
def decoded (bytes : List UInt8) : Except AccessError (Option String) :=
  match String.fromUTF8? ⟨bytes.toArray⟩ with
  | some line => .ok (some line)
  | none => .error .invalidText

/-- The next line with its line break, or `none` at the end of the bytes. The bytes of a line are gone also
if it cannot be decoded. -/
def readLine (r : Reader) : Except AccessError (Option String) × Reader :=
  match r.bytes.dropWhile (· ≠ 0x0a), r.failure with
  | lineBreak :: bytes, _ => (decoded (r.bytes.takeWhile (· ≠ 0x0a) ++ [lineBreak]), { r with bytes })
  | [], some message => (.error (.reader message), { r with bytes := [] })
  | [], none => if r.bytes.isEmpty then (.ok none, r) else (decoded r.bytes, { r with bytes := [] })

theorem decoded_ne_end (bytes : List UInt8) : decoded bytes ≠ .ok none := by
  unfold decoded
  split <;> simp

/-- A line takes at least one byte. -/
theorem length_lt_of_readLine {r after : Reader} {line : String} (h : r.readLine = (.ok (some line), after)) :
    after.bytes.length < r.bytes.length := by
  unfold readLine at h
  split at h
  · rename_i lineBreak bytes hrest
    obtain rfl := congrArg Prod.snd h
    have hle := (List.dropWhile_suffix (l := r.bytes) (· ≠ 0x0a)).length_le
    rwa [hrest] at hle
  · cases h
  · split at h
    · cases h
    · rename_i hfull
      obtain rfl := congrArg Prod.snd h
      exact List.length_pos_iff.2 (mt List.isEmpty_iff.2 hfull)

theorem eq_of_readLine {r after : Reader} (h : r.readLine = (.ok none, after)) : after = r := by
  unfold readLine at h
  split at h
  · exact absurd (congrArg Prod.fst h) (decoded_ne_end _)
  · cases h
  · split at h
    · exact (congrArg Prod.snd h).symm
    · exact absurd (congrArg Prod.fst h) (decoded_ne_end _)

end Reader

/-- A source that is being read: the characters of the current line that have not been delivered, the
position of the next one, whether nothing more will be read, and the lines recorded so far. -/
structure LineStream where
  source : String
  reader : Reader
  line : List Char := []
  here : Position := {}
  done : Bool := false
  recorded : Array String := #[]

namespace LineStream

def ofSource (s : Source) : LineStream :=
  { source := s.name, reader := ⟨s.bytes.data.toList, s.failure⟩ }

def place (s : LineStream) : Span := Span.single s.source s.here

/-- The stream with a line that has been read, which is recorded. -/
def holding (s : LineStream) (line : String) (reader : Reader) : LineStream :=
  let trimmed := Source.trimmed line
  { s with reader, line := trimmed.toList ++ ['\n'], recorded := s.recorded.push trimmed }

/-- Reads the next line. Whether there is one is answered with it. -/
def refill (s : LineStream) : Except AccessError Bool × LineStream :=
  match s.reader.readLine with
  | (.ok (some line), reader) => (.ok true, s.holding line reader)
  | (.ok none, reader) => (.ok false, { s with reader })
  | (.error error, reader) => (.error error, { s with reader })

/-- How much there is to do at most before the next answer. -/
def effort (s : LineStream) : Nat := s.reader.bytes.length + if s.done then 0 else 1

theorem effort_lt_of_refill {s filled : LineStream} (h : s.refill = (.ok true, filled)) : filled.effort < s.effort := by
  unfold refill at h
  split at h
  · rename_i line reader hread
    obtain rfl := congrArg Prod.snd h
    exact Nat.add_lt_add_right (Reader.length_lt_of_readLine hread) _
  · cases h
  · cases h

theorem effort_lt_of_ended {s ended : LineStream} (hdone : ¬ s.done = true) (h : s.refill = (.ok false, ended)) :
    effort { ended with done := true } < s.effort := by
  unfold refill at h
  split at h
  · cases h
  · rename_i reader hread
    obtain rfl := congrArg Prod.snd h
    rw [effort, effort, if_pos rfl, if_neg hdone, Reader.eq_of_readLine hread]
    exact Nat.lt_succ_self _
  · cases h

/-- The next character, or the error of the line that should have been the next. -/
def next? (s : LineStream) : Option (Except AccessError Char) × LineStream :=
  match s.line with
  | c :: line => (some (.ok c), { s with line, here := s.here.after c })
  | [] =>
      if _hdone : s.done then (none, s)
      else
        match _hrefill : s.refill with
        | (.ok true, filled) => filled.next?
        | (.ok false, ended) => next? { ended with done := true }
        | (.error error, failed) => (some (.error error), { failed with done := true })
  termination_by s.effort
  decreasing_by
    · exact effort_lt_of_refill _hrefill
    · exact effort_lt_of_ended _hdone _hrefill

end LineStream

end FormulaCompiler
