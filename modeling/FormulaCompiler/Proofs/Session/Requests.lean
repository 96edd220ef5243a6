import FormulaCompiler.Session

/-!
# Requests of a session

What a session can be asked for, and what each request changes. A parse changes the location, the phase, the error
stream and the log, and but for the log all of this is settled by what the engine answers (`parse_eq`). Whatever else
is proved about sessions rests on the equations of this module and does not look into a parse again.
-/

namespace FormulaCompiler

/-! ### Error streams -/

namespace ErrorStream

variable (stream : ErrorStream) (text : String)

/-- The stream after a report, which it keeps or refuses. -/
def reported : ErrorStream :=
  match stream.refusal with
  | some _ => stream
  | none => { stream with text := stream.text ++ text }

variable {stream}

theorem reported_of_accepts (h : stream.refusal = none) :
    stream.reported text = { stream with text := stream.text ++ text } := by
  rw [reported, h]

theorem reported_of_refuses {reason : String} (h : stream.refusal = some reason) : stream.reported text = stream := by
  rw [reported, h]

variable (stream)

@[simp] theorem refusal_reported : (stream.reported text).refusal = stream.refusal := by
  cases h : stream.refusal with
  | none => rw [reported_of_accepts text h, h]
  | some reason => rw [reported_of_refuses text h, h]

@[simp] theorem reported_empty : stream.reported "" = stream := by
  cases h : stream.refusal with
  | none => rw [reported_of_accepts "" h, String.append_empty]
  | some reason => exact reported_of_refuses "" h

end ErrorStream

/-- The phase that a parse ends in. -/
def Phase.settled : Except EngineError Node → Phase
  | .ok tree => .succeeded tree
  | .error _ => .failed

namespace Session

variable (s : Session)

/-! ### Parses -/

/-- What the engine answers for a source. -/
def answer (source : Source) : Except EngineError Node := (s.engine (.first source.name) (s.scanner source)).1

/-- The lines of a source that have been read by the time the engine answers. -/
def linesRead (source : Source) : List String :=
  source.reading.lines.take (s.engine (.first source.name) (s.scanner source)).2.linesRead

/-- The result of a parse, given why the stream for reports refuses them, if it does. -/
def verdict (unit : String) (refusal : Option String) (read : List String) :
    Except EngineError Node → Except SessionError Unit
  | .ok _ => .ok ()
  | .error (.invalid diagnostics) =>
      .error (if refusal = none ∧ diagnostics.whole read = false then .brokenOff else .invalidInput unit diagnostics.size)
  | .error (.unreadable error) => .error (.inputUnavailable error.span.source error.value)
  | .error (.defect error) => .error (.defect unit error.value)

/-- Whether what is reported of an answer comes whole, if anything is. -/
def comesWhole (read : List String) : Except EngineError Node → Bool
  | .error (.invalid diagnostics) => diagnostics.whole read
  | _ => true

/-- Whether a stream accepts reports makes no difference to the result, as long as what is reported comes whole. -/
theorem verdict_congr {unit : String} {refusal refusal' : Option String} {read : List String}
    {answer : Except EngineError Node}
    (h : comesWhole read answer = true ∨ (refusal = none ↔ refusal' = none)) :
    verdict unit refusal read answer = verdict unit refusal' read answer := by
  cases answer with
  | ok tree => rfl
  | error error =>
      cases error with
      | invalid diagnostics =>
          rcases h with hwhole | hsame
          · simp [verdict, show diagnostics.whole read = true from hwhole]
          · simp only [verdict, hsame]
      | _ => rfl

/-- On a stream that accepts reports, a parse is broken off by diagnostics that do not come whole. -/
theorem verdict_eq_brokenOff {unit : String} {read : List String} {answer : Except EngineError Node} :
    verdict unit none read answer = .error .brokenOff ↔
      ∃ diagnostics, answer = .error (.invalid diagnostics) ∧ diagnostics.whole read = false := by
  cases answer with
  | ok tree => simp [verdict]
  | error error =>
      cases error with
      | invalid diagnostics => cases hwhole : diagnostics.whole read <;> simp [verdict, hwhole]
      | _ => simp [verdict]

/-- What a parse reports. Only the diagnostics of an invalid source are reported. -/
def diagnosis (read : List String) : Except EngineError Node → String
  | .ok _ => ""
  | .error (.invalid diagnostics) => diagnostics.text read
  | .error (.unreadable _) => ""
  | .error (.defect _) => ""

theorem reset_eq : ∃ log, s.reset = { s with location := none, phase := .idle, log } := by
  obtain ⟨directory, unit, scanner, engine, errors, location, phase, log⟩ := s
  cases phase <;> exact ⟨_, rfl⟩

/-- A report breaks off only on a stream that accepts it. -/
theorem report_eq (read : List String) (diagnostics : Diagnostics) : ∃ log, s.report read diagnostics =
    (if s.errors.refusal = none ∧ diagnostics.whole read = false then .brokenOff
      else .invalidInput s.unit diagnostics.size,
      { s with errors := s.errors.reported (diagnostics.text read), log }) := by
  unfold report ErrorStream.write ErrorStream.reported
  cases s.errors.refusal with
  | none => cases diagnostics.whole read <;> exact ⟨s.log, rfl⟩
  | some reason => exact ⟨_, rfl⟩

theorem conclude_eq (read : List String) (answer : Except EngineError Node) :
    ∃ log, s.conclude read answer = (verdict s.unit s.errors.refusal read answer,
      { s with errors := s.errors.reported (diagnosis read answer), phase := .settled answer, log }) := by
  cases answer with
  | ok tree =>
      rw [diagnosis, ErrorStream.reported_empty]
      exact ⟨_, rfl⟩
  | error error =>
      cases error with
      | invalid diagnostics =>
          obtain ⟨log, hreport⟩ := report_eq { s with phase := .failed } read diagnostics
          refine ⟨log, ?_⟩
          rw [conclude, hreport]
          rfl
      | defect error =>
          rw [diagnosis, ErrorStream.reported_empty]
          exact ⟨_, rfl⟩
      | unreadable error =>
          rw [diagnosis, ErrorStream.reported_empty]
          exact ⟨_, rfl⟩

/-- **A parse is settled by what the engine answers**, whatever the session has been through before. -/
theorem parse_eq (source : Source) :
    ∃ log, s.parse source = (verdict s.unit s.errors.refusal (s.linesRead source) (s.answer source),
      { s with
        errors := s.errors.reported (diagnosis (s.linesRead source) (s.answer source))
        location := some (.first source.name)
        phase := .settled (s.answer source)
        log }) := by
  obtain ⟨log, hreset⟩ := s.reset_eq
  rw [parse, hreset]
  exact conclude_eq _ _ _

theorem parseFile_of_read {files : FileSystem} {path : String} {bytes : ByteArray} (h : files.read path = .ok bytes) :
    s.parseFile files path = s.reset.parse { name := path, bytes } := by
  rw [parseFile, h]
  rfl

theorem parseFile_of_unread {files : FileSystem} {path : String} {cause : AccessError}
    (h : files.read path = .error cause) :
    s.parseFile files path = (.error (.inputUnavailable path cause), { s.reset with phase := .failed }) := by
  rw [parseFile, h]
  rfl

/-! ### Requests -/

/-- What a session can be asked for. Each request finds the files as they are at its time. A scanner or an engine that
remembers earlier sources is one that is put in place anew for every parse. -/
inductive Request where
  | reset
  | parse (source : Source)
  | parseFile (files : FileSystem) (path : String)
  | takeTree
  | writeArtifact (files : FileSystem) (content : ByteArray)
  | useScanner (scanner : Scanner)
  | useEngine (engine : Engine)
  | useTracing (tracing : Tracing)

/-- The source that a parse is asked for, or why its file cannot be read. All other requests have none. -/
def Request.input? : Request → Option (Except AccessError Source)
  | .parse source => some (.ok source)
  | .parseFile files path => some ((files.read path).map fun bytes => { name := path, bytes })
  | _ => none

/-- The session after a request. -/
def after : Request → Session
  | .reset => s.reset
  | .parse source => (s.parse source).2
  | .parseFile files path => (s.parseFile files path).2
  | .takeTree => s.takeTree.2
  | .writeArtifact files content => (s.writeArtifact files content).2.1
  | .useScanner scanner => { s with scanner }
  | .useEngine engine => { s with engine }
  | .useTracing tracing => s.withTracing tracing

/-- The result of a request, if it asks for a parse. -/
def result? : Request → Option (Except SessionError Unit)
  | .parse source => some (s.parse source).1
  | .parseFile files path => some (s.parseFile files path).1
  | _ => none

/-- The session after some requests, one after another. -/
def afterAll (requests : List Request) : Session := requests.foldl after s

theorem afterAll_append (before later : List Request) :
    s.afterAll (before ++ later) = (s.afterAll before).afterAll later := List.foldl_append

/-! ### What a request changes -/

section

variable {s} {request : Request} {source : Source} {cause : AccessError}

/-- A request for a parse is settled as the parse is, wherever the source comes from. -/
theorem of_input (h : request.input? = some (.ok source)) :
    s.result? request = some (verdict s.unit s.errors.refusal (s.linesRead source) (s.answer source)) ∧
    ∃ log, s.after request = { s with
      errors := s.errors.reported (diagnosis (s.linesRead source) (s.answer source))
      location := some (.first source.name)
      phase := .settled (s.answer source)
      log } := by
  cases request with
  | parse source' =>
      cases h
      obtain ⟨log, hparse⟩ := s.parse_eq source
      rw [result?, after, hparse]
      exact ⟨rfl, log, rfl⟩
  | parseFile files path =>
      cases hread : files.read path with
      | error cause => simp [Request.input?, hread, Except.map] at h
      | ok bytes =>
          obtain rfl : { name := path, bytes } = source := by simpa [Request.input?, hread, Except.map] using h
          obtain ⟨log, hreset⟩ := s.reset_eq
          obtain ⟨log', hparse⟩ := s.reset.parse_eq { name := path, bytes }
          rw [result?, after, parseFile_of_read s hread, hparse, hreset]
          exact ⟨rfl, log', rfl⟩
  | _ => cases h

/-- Only a file can fail to be found, and then nothing is scanned. -/
theorem of_no_input (h : request.input? = some (.error cause)) :
    (∃ files path, request = .parseFile files path ∧ files.read path = .error cause ∧
      s.result? request = some (.error (.inputUnavailable path cause))) ∧
    ∃ log, s.after request = { s with location := none, phase := .failed, log } := by
  cases request with
  | parseFile files path =>
      cases hread : files.read path with
      | ok bytes => simp [Request.input?, hread, Except.map] at h
      | error cause' =>
          obtain rfl : cause' = cause := by simpa [Request.input?, hread, Except.map] using h
          obtain ⟨log, hreset⟩ := s.reset_eq
          rw [result?, after, parseFile_of_unread s hread, hreset]
          exact ⟨⟨files, path, rfl, hread, rfl⟩, log, rfl⟩
  | _ => cases h

theorem result?_of_no_input (h : request.input? = none) : s.result? request = none := by
  cases request with
  | parse source => cases h
  | parseFile files path => cases h
  | _ => rfl

theorem takeTree_of_none (h : s.tree? = none) : s.takeTree = (none, s) := by
  unfold takeTree
  split
  · rename_i tree hphase
    rw [tree?, hphase] at h
    cases h
  · rfl

theorem takeTree_fst : s.takeTree.1 = s.tree? := by
  unfold takeTree tree?
  split <;> rfl

-- Lean takes seconds to state the equation of `writeArtifact`, which these two do without.
theorem writeArtifact_of_write {files written : FileSystem} {content : ByteArray}
    (h : files.write s.artifactPath content = .ok written) :
    s.writeArtifact files content = (.ok s.artifactPath, s.record .info ("Wrote " ++ s.artifactPath), written) := by
  delta writeArtifact
  rw [h]
  rfl

theorem writeArtifact_of_no_write {files : FileSystem} {content : ByteArray} {cause : AccessError}
    (h : files.write s.artifactPath content = .error cause) :
    s.writeArtifact files content = (.error (.outputUnavailable s.artifactPath cause), s, files) := by
  delta writeArtifact
  rw [h]
  rfl

/-- Writing the artifact changes nothing but the log. -/
theorem after_writeArtifact (files : FileSystem) (content : ByteArray) :
    ∃ log, s.after (.writeArtifact files content) = { s with log } := by
  cases hwrite : files.write s.artifactPath content with
  | ok written =>
      rw [after, writeArtifact_of_write hwrite]
      exact ⟨_, rfl⟩
  | error cause =>
      rw [after, writeArtifact_of_no_write hwrite]
      exact ⟨s.log, rfl⟩

end

variable (request : Request)

/-- Whether what a request reports comes whole, if it reports anything. -/
def ReportsWhole : Prop :=
  ∀ source, request.input? = some (.ok source) → comesWhole (s.linesRead source) (s.answer source) = true

/-- What a request reports. -/
def reportOn : String :=
  match request.input? with
  | some (.ok source) => diagnosis (s.linesRead source) (s.answer source)
  | _ => ""

variable {s request} in
theorem reportOn_of_input {source : Source} (h : request.input? = some (.ok source)) :
    s.reportOn request = diagnosis (s.linesRead source) (s.answer source) := by
  rw [reportOn, h]

/-- The session with the scanner and the engine that a request puts in place. -/
def equipped : Request → Session
  | .useScanner scanner => { s with scanner }
  | .useEngine engine => { s with engine }
  | .useTracing tracing => s.withTracing tracing
  | _ => s

/-- What a request changes, apart from the location, the phase and the log. -/
theorem after_eq : ∃ location phase log, s.after request =
    { s.equipped request with errors := s.errors.reported (s.reportOn request), location, phase, log } := by
  cases hinput : request.input? with
  | none =>
      have hreport : s.errors.reported (s.reportOn request) = s.errors := by
        rw [reportOn, hinput, ErrorStream.reported_empty]
      rw [hreport]
      cases request with
      | reset =>
          obtain ⟨log, hreset⟩ := s.reset_eq
          exact ⟨_, _, log, hreset⟩
      | takeTree =>
          rw [after, takeTree]
          split <;> exact ⟨_, _, _, rfl⟩
      | writeArtifact files content =>
          obtain ⟨log, hwritten⟩ := after_writeArtifact (s := s) files content
          exact ⟨_, _, log, hwritten⟩
      | parse source => cases hinput
      | parseFile files path => cases hinput
      | _ => exact ⟨_, _, _, rfl⟩
  | some input =>
      have hequipped : s.equipped request = s := by cases request <;> first | rfl | cases hinput
      rw [hequipped]
      cases input with
      | ok source =>
          obtain ⟨-, log, hafter⟩ := of_input (s := s) hinput
          rw [reportOn_of_input hinput]
          exact ⟨_, _, log, hafter⟩
      | error cause =>
          obtain ⟨-, log, hafter⟩ := of_no_input (s := s) hinput
          rw [reportOn, hinput, ErrorStream.reported_empty]
          exact ⟨_, _, log, hafter⟩

theorem errors_after : (s.after request).errors = s.errors.reported (s.reportOn request) := by
  obtain ⟨location, phase, log, hafter⟩ := s.after_eq request
  rw [hafter]

theorem unit_after : (s.after request).unit = s.unit ∧ (s.after request).directory = s.directory := by
  obtain ⟨location, phase, log, hafter⟩ := s.after_eq request
  rw [hafter]
  cases request <;> exact ⟨rfl, rfl⟩

variable {s request}

/-- What holds of a session and is kept by each of some requests holds after all of them. -/
theorem afterAll_induction (holds : Session → Prop) {requests : List Request} (hs : holds s)
    (hafter : ∀ t, ∀ request ∈ requests, holds t → holds (t.after request)) : holds (s.afterAll requests) :=
  List.foldlRecOn requests after hs fun t ht request hmem => hafter t request hmem ht

variable (s)

theorem unit_afterAll (requests : List Request) :
    (s.afterAll requests).unit = s.unit ∧ (s.afterAll requests).directory = s.directory := by
  apply afterAll_induction (fun t => t.unit = s.unit ∧ t.directory = s.directory) ⟨rfl, rfl⟩
  intro t request _ ⟨hunit, hdirectory⟩
  exact ⟨(t.unit_after request).1.trans hunit, (t.unit_after request).2.trans hdirectory⟩

theorem refusal_afterAll (requests : List Request) : (s.afterAll requests).errors.refusal = s.errors.refusal := by
  apply afterAll_induction (fun t => t.errors.refusal = s.errors.refusal) rfl
  intro t request _ hrefusal
  rw [errors_after, ErrorStream.refusal_reported, hrefusal]

end Session

end FormulaCompiler
