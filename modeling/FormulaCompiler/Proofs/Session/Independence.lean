import FormulaCompiler.Proofs.Outcome
import FormulaCompiler.Proofs.Parser.Alike
import FormulaCompiler.Proofs.Session.Requests

/-!
# What a parse depends on

With the lexer and the parser, a parse depends on the source and the name of the unit, and on nothing that the session
has been through: neither on earlier sources nor on tracing. And nothing but the stream itself depends on whether a
stream accepts reports, whatever the scanner and the engine are. Main statement: `parse_independent`, from what two
sessions have in common that agree outside their streams and logs (`Agree`), and from the answer of the engine being
the same however it is traced (`engine_untraced`).
-/

namespace FormulaCompiler

/-! ### Answers and tracing -/

namespace Parser

variable (start : Span) (source : Source)

/-- What is logged on the way has no influence on the answer. -/
theorem engine_untraced (scanning parsing scanning' parsing' : Bool) :
    (engine parsing start (Lexer.scan scanning source)).1 =
      (engine parsing' start (Lexer.scan scanning' source)).1 := by
  by_cases herrors : Lexer.errorsOf (Lexer.ofSource source).items = []
  · obtain ⟨log, hengine⟩ := engine_of_tokens source start scanning parsing herrors
    obtain ⟨log', hengine'⟩ := engine_of_tokens source start scanning' parsing' herrors
    rw [hengine, hengine', parse_untraced start _ parsing parsing' log log']
  · rw [engine_of_errors source start scanning parsing herrors,
      engine_of_errors source start scanning' parsing' herrors]

end Parser

namespace Session

variable {s t : Session} {request : Request} {requests : List Request} {tracing : Tracing}

/-! ### Parses of two sessions -/

/-- Whether a request leaves one phase, location and tree, whichever of two sessions it is made of. -/
structure SameState (s t : Session) (request : Request) : Prop where
  phase : (s.after request).phase = (t.after request).phase
  location : (s.after request).location = (t.after request).location
  tree : (s.after request).tree? = (t.after request).tree?

/-- A parse depends on the answer of the engine. -/
theorem sameState_of_answer (hanswer : ∀ source, s.answer source = t.answer source) (hparse : request.input? ≠ none) :
    SameState s t request := by
  obtain ⟨input, hinput⟩ := Option.ne_none_iff_exists'.1 hparse
  cases input with
  | ok source =>
      obtain ⟨-, log, hsafter⟩ := of_input (s := s) hinput
      obtain ⟨-, log', htafter⟩ := of_input (s := t) hinput
      constructor
      all_goals rw [hsafter, htafter, hanswer]
      all_goals rfl
  | error cause =>
      obtain ⟨-, log, hsafter⟩ := of_no_input (s := s) hinput
      obtain ⟨-, log', htafter⟩ := of_no_input (s := t) hinput
      constructor
      all_goals rw [hsafter, htafter]
      all_goals rfl

/-- The result depends on the name of the unit as well, and on whether the stream accepts a report that does not come
whole. -/
theorem result?_of_answer (hunit : s.unit = t.unit) (hanswer : ∀ source, s.answer source = t.answer source)
    (hread : ∀ source, s.linesRead source = t.linesRead source)
    (hreports : t.ReportsWhole request ∨ (s.errors.refusal = none ↔ t.errors.refusal = none)) :
    s.result? request = t.result? request := by
  cases hinput : request.input? with
  | none => rw [result?_of_no_input hinput, result?_of_no_input hinput]
  | some input =>
      cases input with
      | ok source =>
          rw [(of_input hinput).1, (of_input hinput).1, hunit, hanswer, hread]
          exact congrArg some (verdict_congr (hreports.imp_left fun hwhole => hwhole source hinput))
      | error cause =>
          obtain ⟨⟨files, path, rfl, hread, hs⟩, -⟩ := of_no_input (s := s) hinput
          rw [hs, result?, parseFile_of_unread t hread]

/-! ### Sessions with the lexer and the parser -/

/-- Whether a session has the lexer and the parser as its scanner and its engine, traced or not. -/
def Bundled (s : Session) : Prop :=
  ∃ tracing : Tracing, s.scanner = Lexer.scan tracing.scanning ∧ s.engine = Parser.engine tracing.parsing

/-- Whether a request puts nothing else in the place of the scanner or the engine. -/
def Request.Plain : Request → Prop
  | .useScanner _ => False
  | .useEngine _ => False
  | _ => True

theorem Bundled.withTracing (s : Session) (tracing : Tracing) : (s.withTracing tracing).Bundled :=
  ⟨tracing, rfl, rfl⟩

theorem Bundled.after (h : s.Bundled) (hplain : request.Plain) : (s.after request).Bundled := by
  have hequipped : (s.equipped request).Bundled := by
    cases request with
    | useScanner scanner => exact hplain.elim
    | useEngine engine => exact hplain.elim
    | useTracing tracing => exact .withTracing s tracing
    | _ => exact h
  obtain ⟨location, phase, log, hafter⟩ := s.after_eq request
  rw [hafter]
  exact hequipped

theorem Bundled.afterAll (h : s.Bundled) (hplain : ∀ request ∈ requests, request.Plain) :
    (s.afterAll requests).Bundled := by
  apply afterAll_induction Bundled h
  intro t request hmem ht
  exact ht.after (hplain request hmem)

theorem Bundled.answer_eq (hs : s.Bundled) (ht : t.Bundled) (source : Source) : s.answer source = t.answer source := by
  obtain ⟨tracing, hscanner, hengine⟩ := hs
  obtain ⟨tracing', hscanner', hengine'⟩ := ht
  rw [answer, answer, hscanner, hengine, hscanner', hengine']
  exact Parser.engine_untraced _ source _ _ _ _

theorem Bundled.linesRead_eq (h : s.Bundled) (source : Source) : s.linesRead source = source.reading.lines := by
  obtain ⟨tracing, hscanner, hengine⟩ := h
  rw [linesRead, hscanner, hengine, Parser.linesRead_engine, List.take_length]

theorem Bundled.linesRead_congr (hs : s.Bundled) (ht : t.Bundled) (source : Source) :
    s.linesRead source = t.linesRead source := by
  rw [hs.linesRead_eq, ht.linesRead_eq]

theorem Bundled.reportOn_eq (hs : s.Bundled) (ht : t.Bundled) (request : Request) :
    s.reportOn request = t.reportOn request := by
  unfold reportOn
  split
  · rw [hs.answer_eq ht, hs.linesRead_congr ht]
  · rfl

/-! ### Sessions with different streams -/

/-- Whether two sessions agree in all but their streams and logs. -/
structure Agree (s t : Session) : Prop where
  directory : s.directory = t.directory
  unit : s.unit = t.unit
  scanner : s.scanner = t.scanner
  engine : s.engine = t.engine
  location : s.location = t.location
  phase : s.phase = t.phase

theorem Agree.tree? (h : Agree s t) : s.tree? = t.tree? := by
  rw [Session.tree?, Session.tree?, h.phase]

theorem Agree.answer (h : Agree s t) (source : Source) : s.answer source = t.answer source := by
  rw [Session.answer, Session.answer, h.scanner, h.engine]

theorem Agree.linesRead (h : Agree s t) (source : Source) : s.linesRead source = t.linesRead source := by
  rw [Session.linesRead, Session.linesRead, h.scanner, h.engine]

theorem Agree.equipped (h : Agree s t) (request : Request) : Agree (s.equipped request) (t.equipped request) := by
  cases request with
  | useScanner scanner => exact { h with scanner := rfl }
  | useEngine engine => exact { h with engine := rfl }
  | useTracing tracing => exact { h with scanner := rfl, engine := rfl }
  | _ => exact h

/-- The location and the phase after a request are the same if they have been before it. -/
theorem Agree.sameState (h : Agree s t) (request : Request) : SameState s t request := by
  have hsame (hphase : (s.after request).phase = (t.after request).phase)
      (hlocation : (s.after request).location = (t.after request).location) : SameState s t request := by
    refine ⟨hphase, hlocation, ?_⟩
    rw [Session.tree?, Session.tree?, hphase]
  cases request with
  | reset =>
      obtain ⟨log, hs⟩ := s.reset_eq
      obtain ⟨log', ht⟩ := t.reset_eq
      apply hsame
      all_goals rw [Session.after, Session.after, hs, ht]
  | parse source => exact sameState_of_answer h.answer (Option.some_ne_none _)
  | parseFile files path => exact sameState_of_answer h.answer (Option.some_ne_none _)
  | takeTree =>
      have hafter : (s.after .takeTree).phase = (t.after .takeTree).phase ∧
          (s.after .takeTree).location = (t.after .takeTree).location := by
        rw [Session.after, Session.after, takeTree, takeTree, h.phase]
        split
        · exact ⟨rfl, rfl⟩
        · exact ⟨h.phase, h.location⟩
      exact hsame hafter.1 hafter.2
  | writeArtifact files content =>
      obtain ⟨log, hs⟩ := after_writeArtifact (s := s) files content
      obtain ⟨log', ht⟩ := after_writeArtifact (s := t) files content
      apply hsame
      all_goals rw [hs, ht]
      · exact h.phase
      · exact h.location
  | _ => exact hsame h.phase h.location

theorem Agree.after (h : Agree s t) (request : Request) : Agree (s.after request) (t.after request) := by
  have hsame := h.sameState request
  have hequipped := h.equipped request
  obtain ⟨location, phase, log, hs⟩ := s.after_eq request
  obtain ⟨location', phase', log', ht⟩ := t.after_eq request
  have hphase := hsame.phase
  have hlocation := hsame.location
  rw [hs, ht] at hphase hlocation ⊢
  exact ⟨hequipped.directory, hequipped.unit, hequipped.scanner, hequipped.engine, hlocation, hphase⟩

theorem Agree.afterAll (h : Agree s t) (requests : List Request) :
    Agree (s.afterAll requests) (t.afterAll requests) := by
  induction requests generalizing s t with
  | nil => exact h
  | cons request requests ih => exact ih (h.after request)

/-! ### The statement -/

/-- A new session with the lexer and the parser. -/
def built (directory unit : String) (errors : ErrorStream) (tracing : Tracing) : Session :=
  ({ directory, unit, errors } : Session).withTracing tracing

/-- **A parse is independent of what has been before.** After any requests that leave the lexer and the parser in
place, it comes to the same as for a new session, and reports the same. And whatever the scanner and the engine are, it
leaves the same behind with any other stream for the reports. Only a report that does not come whole makes a difference
to the result: it breaks off where the stream accepts it. -/
theorem parse_independent (request : Request) :
    (∀ directory directory' unit errors errors' tracing tracing' (history : List Request),
      (∀ earlier ∈ history, earlier.Plain) → request.input? ≠ none →
      let used := (built directory unit errors tracing).afterAll history
      let new := built directory' unit errors' tracing'
      SameState used new request ∧
        (new.ReportsWhole request ∨ (errors.refusal = none ↔ errors'.refusal = none) →
          used.result? request = new.result? request) ∧
        ∃ report, (used.after request).errors = used.errors.reported report ∧
          (new.after request).errors = new.errors.reported report) ∧
    ∀ (s : Session) (errors : ErrorStream) (history : List Request),
      let other := ({ s with errors } : Session).afterAll history
      let original := s.afterAll history
      SameState other original request ∧
        (original.ReportsWhole request ∨ (errors.refusal = none ↔ s.errors.refusal = none) →
          other.result? request = original.result? request) := by
  constructor
  · intro directory directory' unit errors errors' tracing tracing' history hplain hparse used new
    have hused : used.Bundled := (Bundled.withTracing _ tracing).afterAll hplain
    have hnew : new.Bundled := .withTracing _ tracing'
    have hunit : used.unit = unit := (unit_afterAll _ history).1
    have hrefusal : used.errors.refusal = errors.refusal := refusal_afterAll _ history
    refine ⟨sameState_of_answer (hused.answer_eq hnew) hparse, fun hreports => ?_, _, errors_after _ request, ?_⟩
    · exact result?_of_answer hunit (hused.answer_eq hnew) (hused.linesRead_congr hnew) (hrefusal ▸ hreports)
    · rw [hused.reportOn_eq hnew]
      exact errors_after _ request
  · intro s errors history other original
    have hstart : Agree { s with errors } s := ⟨rfl, rfl, rfl, rfl, rfl, rfl⟩
    have hagree : Agree other original := hstart.afterAll history
    have hother : other.errors.refusal = errors.refusal := refusal_afterAll _ history
    have horiginal : original.errors.refusal = s.errors.refusal := refusal_afterAll s history
    refine ⟨hagree.sameState request, fun hreports => ?_⟩
    exact result?_of_answer hagree.unit hagree.answer hagree.linesRead (hother ▸ horiginal ▸ hreports)

/-- Neither an unreadable source and tracing before, nor a stream that has refused the report of an invalid one, stands
in the way of a parse. -/
theorem parse_independent_spoiled :
    let new := built "out" "main" {} {}
    let used := new.afterAll [.parse Parser.spoiled, .useTracing ⟨true, true⟩]
    let refusing := ({ new with errors := { refusal := some "closed" } } : Session).afterAll [.parse Parser.unspoiled]
    let accepting := new.afterAll [.parse Parser.unspoiled]
    used.result? (.parse Listing.negation) = some (.ok ()) ∧
      SameState refusing accepting (.parse Listing.negation) ∧
      refusing.result? (.parse Listing.negation) = accepting.result? (.parse Listing.negation) := by
  intro new used refusing accepting
  have hplain : ∀ earlier ∈ [Request.parse Parser.spoiled, .useTracing ⟨true, true⟩], earlier.Plain := by
    simp [Request.Plain]
  have hindependent := parse_independent (.parse Listing.negation)
  obtain ⟨-, hused, -⟩ := hindependent.1 "out" "out" "main" {} {} {} {} _ hplain (Option.some_ne_none _)
  obtain ⟨hstate, hresult⟩ := hindependent.2 new { refusal := some "closed" } [.parse Parser.unspoiled]
  have hbundled : new.Bundled := .withTracing _ _
  have hanswer {s : Session} (hs : s.Bundled) :
      s.answer Listing.negation = .ok (.over .negate [.identifier .variable ⟨"x"⟩]) :=
    (hs.answer_eq hbundled _).trans Listing.engine_negation
  have hnew : new.result? (.parse Listing.negation) = some (.ok ()) := by
    rw [(of_input rfl).1, hanswer hbundled, verdict]
  have hwhole : accepting.ReportsWhole (.parse Listing.negation) := by
    rintro source ⟨⟩
    rw [hanswer (hbundled.afterAll (by simp [Request.Plain]))]
    rfl
  exact ⟨(hused (.inr Iff.rfl)).trans hnew, hstate, hresult (.inl hwhole)⟩

end Session

end FormulaCompiler
