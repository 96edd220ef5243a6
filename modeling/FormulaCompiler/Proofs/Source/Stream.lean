import FormulaCompiler.Proofs.Source.Refill

/-!
# The characters of a source in their places

A source delivers its lines up to the first that cannot be read, each without the carriage returns and line breaks
at its end and with one line break behind it, and then the error of that line, if there is one; whoever asks again
gets nothing (`Source.delivers`). Every character stands behind the ones before it, and its line has been recorded when
it is delivered (`Source.records`). Nothing else of a source is seen through its characters, so sources with the same
lines cannot be told apart (`Source.alike_of_lines`), whatever ends their lines.
-/

namespace FormulaCompiler

/-! ### Asking a stream -/

namespace LineStream

/-- The stream after some requests. -/
def after (s : LineStream) : Nat → LineStream
  | 0 => s
  | n + 1 => s.next?.2.after n

/-- The answer to a request behind a given number of others. -/
def answer? (s : LineStream) (n : Nat) : Option (Except AccessError Char) := (s.after n).next?.1

/-- Whether a stream delivers some characters, then an error if there is one, and then nothing. The place of a
character to come is the one behind those before it. -/
structure Delivers (s : LineStream) (chars : List Char) (ending : Option AccessError) : Prop where
  char : ∀ n c, chars[n]? = some c → s.answer? n = some (.ok c)
  ending : s.answer? chars.length = ending.map .error
  silence : ∀ n, chars.length < n → s.answer? n = none
  place : ∀ n, (s.after n).place = Span.single s.source (s.here.across (chars.take n))

variable {s : LineStream} {source : String} {rest : List Char} {failure : Option AccessError} {here : Position}

theorem after_add (s : LineStream) (m n : Nat) : s.after (m + n) = (s.after m).after n := by
  induction m generalizing s with
  | zero => rw [Nat.zero_add, after]
  | succ m ih => rw [Nat.add_right_comm, after, after, ih]

theorem after_succ (s : LineStream) (n : Nat) : s.after (n + 1) = (s.after n).next?.2 := after_add s n 1

theorem view_next? {view : CharStream} (h : s.view = view) :
    s.next?.1 = view.next?.map Prod.fst ∧ s.next?.2.view = (view.next?.map Prod.snd).getD view := h ▸ s.next?_view

theorem view_after_of_ended (h : s.view = ⟨source, [], none, here⟩) (n : Nat) :
    (s.after n).view = ⟨source, [], none, here⟩ := by
  induction n generalizing s with
  | zero => exact h
  | succ n ih => exact ih (view_next? h).2

theorem place_eq_of_view (h : s.view = ⟨source, rest, failure, here⟩) : s.place = Span.single source here :=
  congrArg CharStream.place h

theorem delivers_of_ended (h : s.view = ⟨s.source, [], none, s.here⟩) : s.Delivers [] none := by
  refine ⟨fun n c hc => ?_, (view_next? h).1, fun n _ => ?_, fun n => ?_⟩
  · cases hc
  · exact (view_next? (view_after_of_ended h n)).1
  · rw [place_eq_of_view (view_after_of_ended h n), List.take_nil]
    rfl

theorem delivers_of_failed {error : AccessError} (h : s.view = ⟨s.source, [], some error, s.here⟩) :
    s.Delivers [] (some error) := by
  have hnext : s.next?.2.view = ⟨s.source, [], none, s.here⟩ := (view_next? h).2
  refine ⟨fun n c hc => ?_, (view_next? h).1, fun n hn => ?_, fun n => ?_⟩
  · cases hc
  · cases n with
    | zero => cases hn
    | succ n => exact (view_next? (view_after_of_ended hnext n)).1
  · rw [List.take_nil]
    cases n with
    | zero => rfl
    | succ n => exact place_eq_of_view (view_after_of_ended hnext n)

theorem delivers_of_view (h : s.view = ⟨s.source, rest, failure, s.here⟩) : s.Delivers rest failure := by
  induction rest generalizing s with
  | nil =>
      cases failure with
      | none => exact delivers_of_ended h
      | some error => exact delivers_of_failed h
  | cons c rest ih =>
      obtain ⟨hanswer, hnext⟩ := view_next? h
      have hsource : s.next?.2.source = s.source := congrArg CharStream.source hnext
      have hhere : s.next?.2.here = s.here.after c := congrArg CharStream.here hnext
      have hrest := ih (s := s.next?.2) (by rw [hsource, hhere]; exact hnext)
      refine ⟨fun n d hd => ?_, hrest.ending, fun n hn => ?_, fun n => ?_⟩
      · cases n with
        | zero =>
            cases hd
            exact hanswer
        | succ n => exact hrest.char n d hd
      · cases n with
        | zero => cases hn
        | succ n => exact hrest.silence n (Nat.lt_of_succ_lt_succ hn)
      · cases n with
        | zero => rfl
        | succ n =>
            have hplace := hrest.place n
            rw [hsource, hhere] at hplace
            exact hplace

/-- **A stream delivers what is left of it.** -/
theorem delivers (s : LineStream) : s.Delivers s.view.rest s.view.failure := delivers_of_view rfl

variable {chars : List Char} {ending : Option AccessError}

theorem Delivers.answer?_eq_ok_iff (h : s.Delivers chars ending) {n : Nat} {c : Char} :
    s.answer? n = some (.ok c) ↔ chars[n]? = some c := by
  refine ⟨fun hanswer => ?_, h.char n c⟩
  obtain hn | rfl | hn := Nat.lt_trichotomy n chars.length
  · obtain ⟨d, hd⟩ : ∃ d, chars[n]? = some d := ⟨_, List.getElem?_eq_getElem hn⟩
    cases (h.char n d hd).symm.trans hanswer
    exact hd
  · rw [h.ending] at hanswer
    cases ending <;> cases hanswer
  · rw [h.silence n hn] at hanswer
    cases hanswer

theorem Delivers.here_after (h : s.Delivers chars ending) (n : Nat) :
    (s.after n).here = s.here.across (chars.take n) :=
  congrArg Span.start (h.place n)

/-- Later characters stand further on. -/
theorem Delivers.here_lt (h : s.Delivers chars ending) {m n : Nat} (hmn : m < n) (hn : n ≤ chars.length) :
    (s.after m).here < (s.after n).here := by
  obtain ⟨k, rfl⟩ : ∃ k, n = m + (k + 1) := ⟨n - m - 1, by omega⟩
  have hne : (chars.drop m).take (k + 1) ≠ [] := by
    rw [← List.length_pos_iff, List.length_take, List.length_drop]
    omega
  rw [h.here_after, h.here_after, List.take_add, Position.across_append]
  exact Position.lt_across hne

/-- What is left after some requests are the characters that they have not delivered. -/
theorem rest_after (s : LineStream) (n : Nat) : (s.after n).view.rest = s.view.rest.drop n := by
  induction n generalizing s with
  | zero => rfl
  | succ n ih =>
      rw [after, ih, s.next?_view.2]
      obtain ⟨source, rest, failure, here⟩ := s.view
      cases rest with
      | nil => cases failure <;> simp [CharStream.next?]
      | cons c rest => rfl

end LineStream

namespace Source

/-- The characters of lines, each with a line break behind it. -/
def delivered (lines : List String) : List Char := lines.flatMap fun line => line.toList ++ ['\n']

/-- A source before it is asked for the first time. -/
theorem view_ofSource (s : Source) : (LineStream.ofSource s).view = CharStream.ofSource s := rfl

theorem delivers (s : Source) : (LineStream.ofSource s).Delivers (delivered s.reading.lines) s.reading.failure :=
  (LineStream.ofSource s).delivers

/-! ### Recorded lines -/

/-- The lines recorded by the time that a source has been asked for some characters. -/
def recorded (s : Source) (requests : Nat) : List String := ((LineStream.ofSource s).after requests).recorded.toList

theorem over_after (s : Source) (n : Nat) : LineStream.Over s.reading.lines ((LineStream.ofSource s).after n) := by
  induction n with
  | zero => exact ⟨rfl, .inl rfl, Nat.le_refl 1, rfl⟩
  | succ n ih =>
      rw [LineStream.after_succ]
      exact (ih.next? s.newline_notMem_lines).1

/-- A request records the lines up to the one of the character that it asks for. -/
theorem recorded_succ (s : Source) (n : Nat) :
    s.recorded (n + 1) = s.reading.lines.take ((LineStream.ofSource s).after n).view.linesSeen := by
  rw [recorded, LineStream.after_succ]
  exact ((s.over_after n).next? s.newline_notMem_lines).2

/-- Whether some lines are recorded: all of them in the end, and before that the lines up to the one that the
last character delivered is in. -/
structure Records (s : Source) (lines : List String) : Prop where
  upTo : ∀ before line later front c back, lines = before ++ line :: later → line.toList ++ ['\n'] = front ++ c :: back →
    s.recorded ((delivered before ++ front).length + 1) = before ++ [line]
  all : ∀ n, (delivered lines).length ≤ n → s.recorded n = lines

theorem records (s : Source) : s.Records s.reading.lines := by
  refine ⟨fun before line later front c back hlines hsplit => ?_, fun n hn => ?_⟩
  · have hbreaks := s.newline_notMem_lines
    rw [hlines, List.forall_mem_append, List.forall_mem_cons] at hbreaks
    have hfront : '\n' ∉ front := by
      have hle : front.length ≤ line.toList.length := by
        have hlength := congrArg List.length hsplit
        simp only [List.length_append, List.length_cons, List.length_nil] at hlength
        omega
      have hwhole : front <+: line.toList ++ ['\n'] := hsplit ▸ List.prefix_append front (c :: back)
      exact fun hmem => hbreaks.2.1
        ((List.prefix_of_prefix_length_le hwhole (List.prefix_append _ _) hle).subset hmem)
    have hdelivered : delivered s.reading.lines = (delivered before ++ front) ++ (c :: back ++ delivered later) := by
      rw [hlines, delivered, List.flatMap_append, List.flatMap_cons, hsplit]
      simp [delivered]
    have hrest : ((LineStream.ofSource s).after (delivered before ++ front).length).view.rest =
        c :: back ++ delivered later := by
      rw [LineStream.rest_after]
      exact (congrArg (List.drop _) hdelivered).trans List.drop_left
    have hhere : ((LineStream.ofSource s).after (delivered before ++ front).length).here.line = before.length + 1 := by
      rw [s.delivers.here_after, hdelivered, List.take_left, Position.across_append]
      show ((Position.across {} (delivered before)).across front).line = _
      rw [delivered, Position.across_lines before 1 hbreaks.1, Position.across_line hfront, Nat.add_comm]
    have hseen : ((LineStream.ofSource s).after (delivered before ++ front).length).view.linesSeen = before.length + 1 := by
      rw [CharStream.linesSeen, hrest]
      exact hhere
    rw [recorded_succ, hseen, hlines, ← List.singleton_append, ← List.append_assoc]
    exact List.take_left' (by simp)
  · have hrest : ((LineStream.ofSource s).after n).view.rest = [] := by
      rw [LineStream.rest_after]
      exact List.drop_of_length_le hn
    have hleft : ((LineStream.ofSource s).after n).left.lines = [] := by
      cases hlines : ((LineStream.ofSource s).after n).left.lines with
      | nil => rfl
      | cons line lines =>
          rw [LineStream.view, Reading.chars, hlines] at hrest
          simp at hrest
    have hlines := (s.over_after n).lines_eq
    rwa [hleft, List.append_nil] at hlines

/-! ### Sources that cannot be told apart -/

/-- Whether two sources deliver the same characters in the same places and record the same lines for it. -/
def Alike (s other : Source) : Prop :=
  ∀ n, (∀ c, (LineStream.ofSource s).answer? n = some (.ok c) ↔ (LineStream.ofSource other).answer? n = some (.ok c)) ∧
    ((LineStream.ofSource s).after n).place = ((LineStream.ofSource other).after n).place ∧
    s.recorded n = other.recorded n

theorem alike_of_lines {s other : Source} (hname : s.name = other.name) (hlines : s.reading.lines = other.reading.lines) :
    s.Alike other := by
  have hs := s.delivers
  have hother := other.delivers
  rw [← hlines] at hother
  have hplace (n : Nat) : ((LineStream.ofSource s).after n).place = ((LineStream.ofSource other).after n).place := by
    rw [hs.place, hother.place]
    exact congrArg (Span.single · _) hname
  refine fun n => ⟨fun c => ?_, hplace n, ?_⟩
  · rw [hs.answer?_eq_ok_iff, hother.answer?_eq_ok_iff]
  · cases n with
    | zero => rfl
    | succ n =>
        have hrest : ((LineStream.ofSource s).after n).view.rest = ((LineStream.ofSource other).after n).view.rest := by
          rw [LineStream.rest_after, LineStream.rest_after]
          exact congrArg (fun lines => (delivered lines).drop n) hlines
        have hhere : ((LineStream.ofSource s).after n).view.here = ((LineStream.ofSource other).after n).view.here :=
          congrArg Span.start (hplace n)
        rw [recorded_succ, recorded_succ, CharStream.linesSeen, CharStream.linesSeen, hrest, hhere, hlines]

end Source

end FormulaCompiler
