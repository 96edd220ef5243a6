import FormulaCompiler.Program
import FormulaCompiler.Proofs.FileSystem
import FormulaCompiler.Proofs.Printing
import FormulaCompiler.Proofs.Reports
import FormulaCompiler.Proofs.RoundTrip
import FormulaCompiler.Proofs.Session.Independence

/-!
# What a run of the program leaves behind

A run compiles if its input is a text to the end, the text is a unit of the language, and a file can be created where
the artifact belongs (`Compiles`). Such a run exits with 0 and has written the listing there; any other run has written
nothing and exits with 1, or with 101 if the report of what is wrong with its input breaks off (`runGiven_outcome`). In
front of the one write at its end, a run only reads: first it parses, which settles whether there is a listing at all
(`parse_of_accepted`, `parse_of_rejected`).
-/

namespace FormulaCompiler

/-- Where the artifact of an invocation belongs. -/
def Invocation.artifactPath (invocation : Invocation) : String :=
  Path.join invocation.directory (invocation.unitName ++ ".asm")

/-- Whether some bytes are what an input has to offer. A file is opened by its path. -/
def InputChoice.Offers (fs : FileSystem) (standardInput : Except AccessError ByteArray) (bytes : ByteArray) :
    InputChoice → Prop
  | .standardInput => standardInput = .ok bytes
  | .file path => fs.Holds path bytes

/-- Whether a text is a unit of the language, and of which tree. -/
def Accepts (text : String) (tree : Node) : Prop :=
  (Parser.engine false default (Lexer.scan false (.ofText "" text))).1 = .ok tree

/-- A text has one tree, wherever it comes from. -/
theorem Accepts.unique {text : String} {tree tree' : Node} (h : Accepts text tree) (h' : Accepts text tree') :
    tree = tree' := Except.ok.inj (h.symm.trans h')

/-- What it takes to compile: an input that is a text to its end, a tree of this text, and a place where the artifact
can be created. -/
structure Invocation.Compiles (invocation : Invocation) (fs : FileSystem) (standardInput : Except AccessError ByteArray)
    (text : String) (tree : Node) (place : Place) : Prop where
  input : invocation.input.Offers fs standardInput text.toUTF8
  accepted : Accepts text tree
  creatable : fs.CreatesAt invocation.artifactPath place

/-- Whether a source is found invalid in a place that is too wide for the report. -/
def Source.BreaksOff (s : Source) : Prop :=
  ∃ diagnostics, (Parser.engine false (.first s.name) (Lexer.scan false s)).1 = .error (.invalid diagnostics) ∧
    ∃ problem ∈ diagnostics.problems, ¬ problem.span.Narrow

/-- What the source of an input is called. -/
def InputChoice.sourceName : InputChoice → String
  | .standardInput => "<stdin>"
  | .file path => path

/-- Whether an input can be opened, and is found invalid in a place that is too wide for the report. -/
def Invocation.BreaksOff (invocation : Invocation) (fs : FileSystem) (standardInput : Except AccessError ByteArray) :
    Prop :=
  ∃ bytes, invocation.input.Offers fs standardInput bytes ∧ Source.BreaksOff ⟨invocation.input.sourceName, bytes, none⟩

/-! ### Parses -/

/-- The report of what the engine finds invalid in a source comes whole unless it is too wide for it. -/
theorem Source.breaksOff_iff {s : Source} {scanning parsing : Bool} : s.BreaksOff ↔ ∃ diagnostics,
    (Parser.engine parsing (.first s.name) (Lexer.scan scanning s)).1 = .error (.invalid diagnostics) ∧
      diagnostics.whole s.reading.lines = false := by
  rw [BreaksOff, Parser.engine_untraced _ s false false scanning parsing]
  refine exists_congr fun diagnostics => and_congr_right fun hinvalid => ?_
  obtain ⟨hne, hshows⟩ := Parser.shows_of_invalid s scanning parsing hinvalid
  obtain ⟨-, -, -, hwhole⟩ := lines_of_shows hne hshows
  rw [← Bool.not_eq_true, hwhole]
  push Not
  rfl

/-- More than 65535 blanks are too wide for the report of the character behind them. -/
theorem Source.breaksOff_indented (count : Nat) : (indented count).BreaksOff ↔ widthLimit < count := by
  have hreadable : (indented count).reading.failure = none := by rw [reading_indented]
  have herrors : Lexer.errorsOf (Lexer.ofSource (indented count)).items ≠ [] := by
    rw [errorsOf_indented]
    exact List.cons_ne_nil _ _
  have hinvalid := Parser.engine_of_readable (indented count) (.first (indented count).name) false false hreadable herrors
  rw [← Nat.not_le, ← whole_indented, breaksOff_iff, hinvalid, Bool.not_eq_true]
  simp

/-- A parse is broken off if the source is too wide for the report, as long as the report is accepted. -/
theorem Session.Bundled.parse_eq_brokenOff_iff {s : Session} (h : s.Bundled) (haccepts : s.errors.refusal = none)
    (source : Source) : (s.parse source).1 = .error .brokenOff ↔ source.BreaksOff := by
  have hread := h.linesRead_eq source
  obtain ⟨tracing, hscanner, hengine⟩ := h
  obtain ⟨log, hparse⟩ := s.parse_eq source
  rw [hparse, haccepts, verdict_eq_brokenOff, hread, answer, hscanner, hengine]
  exact Source.breaksOff_iff.symm

/-- A tree comes out of a source if the source is a text that is a unit of the language. -/
theorem Parser.engine_eq_ok_iff (start : Span) (scanning parsing : Bool) (source : Source) (tree : Node) :
    (engine parsing start (Lexer.scan scanning source)).1 = .ok tree ↔
      ∃ text, source = .ofText source.name text ∧ Accepts text tree := by
  constructor
  · intro h
    have hreadable := Lexer.readable_of_errorsOf (errorsOf_of_engine source start scanning parsing h)
    obtain ⟨text, htext⟩ := Source.readable_iff.1 hreadable
    have hreading : (Source.ofText "" text).reading = source.reading := by
      rw [htext]
      rfl
    exact ⟨text, htext, engine_of_reading source start scanning parsing h hreading default false false⟩
  · rintro ⟨text, htext, haccepted⟩
    have hreading : source.reading = (Source.ofText "" text).reading := by
      rw [htext]
      rfl
    exact engine_of_reading _ default false false haccepted hreading start scanning parsing

namespace Program

variable {fs : FileSystem} {standardInput : Except AccessError ByteArray} {invocation : Invocation}
  {text : String} {tree : Node} {place : Place} {bytes : ByteArray}

theorem opened_eq_ok_iff {choice : InputChoice} :
    opened fs standardInput choice = .ok bytes ↔ choice.Offers fs standardInput bytes := by
  cases choice with
  | standardInput => rfl
  | file path => exact FileSystem.read_eq_ok_iff

theorem parse_of_bytes (invocation : Invocation) (bytes : ByteArray) :
    parse invocation (.ok bytes) = invocation.session.parse { name := invocation.input.sourceName, bytes } := by
  obtain ⟨input, directory, tracing⟩ := invocation
  cases input <;> rfl

/-- A parse of the session ends in the tree of a text, or in an error. -/
theorem session_parse (invocation : Invocation) (source : Source) :
    (∀ text tree, source = .ofText source.name text → Accepts text tree →
      (invocation.session.parse source).1 = .ok () ∧ (invocation.session.parse source).2.tree? = some tree) ∧
    ((∀ text tree, source = .ofText source.name text → ¬ Accepts text tree) →
      ∃ error, (invocation.session.parse source).1 = .error error) := by
  obtain ⟨log, hparse⟩ := invocation.session.parse_eq source
  have hanswer (tree : Node) : invocation.session.answer source = .ok tree ↔
      ∃ text, source = .ofText source.name text ∧ Accepts text tree :=
    Parser.engine_eq_ok_iff _ invocation.tracing.scanning invocation.tracing.parsing source tree
  rw [hparse]
  constructor
  · intro text tree htext haccepted
    have hok := (hanswer tree).2 ⟨text, htext, haccepted⟩
    rw [hok]
    exact ⟨rfl, rfl⟩
  · intro hrejected
    cases hok : invocation.session.answer source with
    | ok tree =>
        obtain ⟨text, htext, haccepted⟩ := (hanswer tree).1 hok
        exact absurd haccepted (hrejected text tree htext)
    | error error => cases error <;> exact ⟨_, rfl⟩

/-- A text that is a unit of the language is parsed to its tree. -/
theorem parse_of_accepted (invocation : Invocation) (haccepted : Accepts text tree) :
    (parse invocation (.ok text.toUTF8)).1 = .ok () ∧ (parse invocation (.ok text.toUTF8)).2.tree? = some tree := by
  rw [parse_of_bytes]
  exact (session_parse invocation _).1 text tree rfl haccepted

/-- Whatever else opening the input leads to, the parse is an error. -/
theorem parse_of_rejected (invocation : Invocation) {opened : Except AccessError ByteArray}
    (hrejected : ∀ text tree, opened = .ok text.toUTF8 → ¬ Accepts text tree) :
    ∃ error, (parse invocation opened).1 = .error error := by
  cases opened with
  | ok bytes =>
      rw [parse_of_bytes]
      refine (session_parse invocation _).2 fun text tree htext haccepted => ?_
      exact hrejected text tree (congrArg Except.ok (congrArg Source.bytes htext)) haccepted
  | error cause =>
      obtain ⟨input, directory, tracing⟩ := invocation
      cases input with
      | standardInput =>
          -- The source of an input that fails has the failure in it, so no text gives it.
          refine (session_parse _ ⟨"<stdin>", .empty, some cause.message⟩).2 fun text tree htext _ => ?_
          cases congrArg Source.failure htext
      | file path => exact ⟨_, rfl⟩

/-- What comes of opening an input breaks off the parse if it can be read, but is too wide for the report. -/
theorem parse_eq_brokenOff_iff (invocation : Invocation) (opened : Except AccessError ByteArray) :
    (parse invocation opened).1 = .error .brokenOff ↔
      ∃ bytes, opened = .ok bytes ∧ Source.BreaksOff ⟨invocation.input.sourceName, bytes, none⟩ := by
  have hbundled : invocation.session.Bundled := .withTracing _ invocation.tracing
  cases opened with
  | ok bytes =>
      rw [parse_of_bytes, hbundled.parse_eq_brokenOff_iff rfl]
      simp
  | error cause =>
      have hbreaks : ¬ ∃ bytes, Except.error cause = .ok bytes ∧
          Source.BreaksOff ⟨invocation.input.sourceName, bytes, none⟩ := by simp
      rw [iff_false_intro hbreaks, iff_false]
      obtain ⟨input, directory, tracing⟩ := invocation
      cases input with
      | standardInput =>
          -- What fails to be read is never found invalid.
          intro hbroken
          obtain ⟨diagnostics, hinvalid, -⟩ := (hbundled.parse_eq_brokenOff_iff rfl _).1 hbroken
          cases Parser.readable_of_invalid _ _ false false hinvalid
      | file path => exact Except.error.inj.mt SessionError.noConfusion

/-- A parse leaves the session with the unit and the directory of the invocation. -/
theorem artifactPath_parse (invocation : Invocation) (opened : Except AccessError ByteArray) :
    (parse invocation opened).2.unit = invocation.unitName ∧
      (parse invocation opened).2.artifactPath = invocation.artifactPath := by
  have hsession (source : Source) : (invocation.session.parse source).2.unit = invocation.unitName ∧
      (invocation.session.parse source).2.artifactPath = invocation.artifactPath := by
    obtain ⟨log, hparse⟩ := invocation.session.parse_eq source
    rw [hparse]
    exact ⟨rfl, rfl⟩
  cases opened with
  | ok bytes =>
      rw [parse_of_bytes]
      exact hsession _
  | error cause =>
      obtain ⟨input, directory, tracing⟩ := invocation
      cases input with
      | standardInput => exact hsession _
      | file path => exact ⟨rfl, rfl⟩

/-! ### Runs -/

theorem runGiven_of_usage {arguments : List String} {usage : UsageError}
    (h : Invocation.ofWords arguments = .error usage) :
    runGiven fs arguments standardInput = (usageExit usage, fs) := by
  rw [runGiven, h]

theorem parse_eq_brokenOff_iff_breaksOff :
    (parse invocation (opened fs standardInput invocation.input)).1 = .error .brokenOff ↔
      invocation.BreaksOff fs standardInput := by
  rw [parse_eq_brokenOff_iff, Invocation.BreaksOff]
  simp only [opened_eq_ok_iff]

theorem not_breaksOff_of_accepted (hopened : opened fs standardInput invocation.input = .ok text.toUTF8)
    (haccepted : Accepts text tree) : ¬ invocation.BreaksOff fs standardInput := by
  rw [← parse_eq_brokenOff_iff_breaksOff, hopened, (parse_of_accepted invocation haccepted).1]
  exact fun h => by cases h

/-- The exit code of a parse that fails. -/
theorem artifact_of_error (error : SessionError) (s : Session) : ∃ exit, artifact (.error error) s = .error exit ∧
    (error = .brokenOff → exit.code = 101) ∧ (error ≠ .brokenOff → exit.code = 1) := by
  cases error with
  | brokenOff => exact ⟨_, rfl, fun _ => rfl, fun h => absurd rfl h⟩
  | _ => exact ⟨_, rfl, SessionError.noConfusion, fun _ => rfl⟩

theorem runGiven_of_rejected {arguments : List String} (hwords : Invocation.ofWords arguments = .ok invocation)
    (hrejected : ∀ text tree, opened fs standardInput invocation.input = .ok text.toUTF8 → ¬ Accepts text tree) :
    ∃ exit, runGiven fs arguments standardInput = (exit, fs) ∧
      (invocation.BreaksOff fs standardInput → exit.code = 101) ∧
      (¬ invocation.BreaksOff fs standardInput → exit.code = 1) := by
  rw [← parse_eq_brokenOff_iff_breaksOff]
  obtain ⟨error, herror⟩ := parse_of_rejected invocation hrejected
  obtain ⟨exit, hexit, hcode⟩ := artifact_of_error error (parse invocation (opened fs standardInput invocation.input)).2
  rw [herror, Except.error.injEq, runGiven, hwords]
  simp only [herror, hexit]
  exact ⟨exit, rfl, hcode⟩

theorem artifactPath_noteTree (tracing : Tracing) (s : Session) :
    (noteTree tracing s).artifactPath = s.artifactPath := by
  unfold noteTree
  split
  · split <;> rfl
  · rfl

/-- Where there is a tree, all that is left to a run is to write its listing. -/
theorem runGiven_of_accepted {arguments : List String} (hwords : Invocation.ofWords arguments = .ok invocation)
    (hopened : opened fs standardInput invocation.input = .ok text.toUTF8) (haccepted : Accepts text tree) :
    ∃ s : Session, s.artifactPath = invocation.artifactPath ∧
      let (result, s, after) := s.writeArtifact fs (Listing.text invocation.unitName tree).toUTF8
      runGiven fs arguments standardInput = (finish result s, after) := by
  obtain ⟨hresult, htree⟩ := parse_of_accepted invocation haccepted
  obtain ⟨hunit, hpath⟩ := artifactPath_parse invocation (.ok text.toUTF8)
  refine ⟨_, (artifactPath_noteTree invocation.tracing _).trans hpath, ?_⟩
  rw [runGiven, hwords]
  simp only [hopened, artifact, hresult, htree, hunit]

theorem runGiven_of_compiles {arguments : List String} (hwords : Invocation.ofWords arguments = .ok invocation)
    (h : invocation.Compiles fs standardInput text tree place) :
    ∃ exit, exit.code = 0 ∧ runGiven fs arguments standardInput =
      (exit, fs.put place (.file (Listing.text invocation.unitName tree).toUTF8)) := by
  obtain ⟨s, hpath, hrun⟩ := runGiven_of_accepted hwords (opened_eq_ok_iff.2 h.input) h.accepted
  have hcreatable : fs.CreatesAt s.artifactPath place := hpath ▸ h.creatable
  rw [Session.writeArtifact_of_write hcreatable.write_eq] at hrun
  exact ⟨_, rfl, hrun⟩

theorem runGiven_of_not_compiles {arguments : List String} (hwords : Invocation.ofWords arguments = .ok invocation)
    (h : ∀ text tree place, ¬ invocation.Compiles fs standardInput text tree place) :
    ∃ exit, runGiven fs arguments standardInput = (exit, fs) ∧
      (invocation.BreaksOff fs standardInput → exit.code = 101) ∧
      (¬ invocation.BreaksOff fs standardInput → exit.code = 1) := by
  by_cases haccepted : ∃ text tree, opened fs standardInput invocation.input = .ok text.toUTF8 ∧ Accepts text tree
  · obtain ⟨text, tree, hopened, haccepted⟩ := haccepted
    have hwhole := not_breaksOff_of_accepted hopened haccepted
    obtain ⟨s, hpath, hrun⟩ := runGiven_of_accepted hwords hopened haccepted
    cases hwrite : fs.write s.artifactPath (Listing.text invocation.unitName tree).toUTF8 with
    | ok after =>
        obtain ⟨place, hcreatable⟩ := FileSystem.exists_createsAt_of_write hwrite
        exact absurd ⟨opened_eq_ok_iff.1 hopened, haccepted, hpath ▸ hcreatable⟩ (h text tree place)
    | error cause =>
        rw [Session.writeArtifact_of_no_write hwrite] at hrun
        exact ⟨_, hrun, fun hbreaks => absurd hbreaks hwhole, fun _ => rfl⟩
  · exact runGiven_of_rejected hwords fun text tree hopened hunit => haccepted ⟨text, tree, hopened, hunit⟩

/-- **A run touches nothing but its artifact.** What is written there, the name of the unit aside, depends on the text
of the input and not on where it comes from. A run that does not compile exits with 1, unless its report breaks off. -/
theorem runGiven_outcome (fs : FileSystem) (arguments : List String) (standardInput : Except AccessError ByteArray) :
    (∀ usage, Invocation.ofWords arguments = .error usage →
      runGiven fs arguments standardInput = (usageExit usage, fs)) ∧
    ∀ invocation, Invocation.ofWords arguments = .ok invocation →
      ((runGiven fs arguments standardInput).1.code = 0 ↔
        ∃ text tree place, invocation.Compiles fs standardInput text tree place) ∧
      (∀ text tree place, invocation.Compiles fs standardInput text tree place →
        fs.Writes (runGiven fs arguments standardInput).2 invocation.artifactPath place
          (Listing.text invocation.unitName tree).toUTF8 ∧
        ∀ (other : Invocation) (fs' : FileSystem) (standardInput' : Except AccessError ByteArray) (tree' : Node)
          (place' : Place), other.Compiles fs' standardInput' text tree' place' → tree' = tree) ∧
      ((∀ text tree place, ¬ invocation.Compiles fs standardInput text tree place) →
        (runGiven fs arguments standardInput).2 = fs ∧
        (invocation.BreaksOff fs standardInput → (runGiven fs arguments standardInput).1.code = 101) ∧
        (¬ invocation.BreaksOff fs standardInput → (runGiven fs arguments standardInput).1.code = 1)) := by
  refine ⟨fun usage => runGiven_of_usage, fun invocation hwords => ⟨⟨?_, ?_⟩, ?_, ?_⟩⟩
  · intro hcode
    by_contra hnone
    obtain ⟨exit, hrun, hbroken, hwhole⟩ := runGiven_of_not_compiles hwords fun text tree place hcompiles =>
      hnone ⟨text, tree, place, hcompiles⟩
    rw [hrun] at hcode
    by_cases hbreaks : invocation.BreaksOff fs standardInput
    · cases (hbroken hbreaks).symm.trans hcode
    · cases (hwhole hbreaks).symm.trans hcode
  · rintro ⟨text, tree, place, hcompiles⟩
    obtain ⟨exit, hzero, hrun⟩ := runGiven_of_compiles hwords hcompiles
    rw [hrun]
    exact hzero
  · intro text tree place hcompiles
    obtain ⟨exit, -, hrun⟩ := runGiven_of_compiles hwords hcompiles
    rw [hrun]
    exact ⟨hcompiles.creatable.writes, fun _ _ _ _ _ hother => hother.accepted.unique hcompiles.accepted⟩
  · intro hnone
    obtain ⟨exit, hrun, hcode⟩ := runGiven_of_not_compiles hwords hnone
    rw [hrun]
    exact ⟨rfl, hcode⟩

/-- A directory with a source and an artifact from earlier. -/
def workshop : FileSystem :=
  ((FileSystem.empty ["work"]).put ["work", "in.kb"] (.file "-x".toUTF8)).put ["work", "in.asm"]
    (.file "an artifact from earlier".toUTF8)

/-- A run that replaces an artifact from earlier, and one whose directory is missing. -/
theorem runGiven_outcome_workshop :
    (run workshop ["in.kb", "."] .empty).1.code = 0 ∧
    (run workshop ["in.kb", "."] .empty).2.Holds "./in.asm"
      (Listing.text "in" (.over .negate [.identifier .variable ⟨"x"⟩])).toUTF8 ∧
    (run workshop ["in.kb", "gone"] .empty).1.code = 1 ∧
    (run workshop ["in.kb", "gone"] .empty).2 = workshop := by
  have hwords : Invocation.ofWords ["in.kb", "."] = .ok ⟨.file "in.kb", ".", {}⟩ := by decide +kernel
  have hgone : Invocation.ofWords ["in.kb", "gone"] = .ok ⟨.file "in.kb", "gone", {}⟩ := by decide +kernel
  have hreading : (Source.ofText "" "-x").reading = Listing.negation.reading := rfl
  have hcompiles : Invocation.Compiles ⟨.file "in.kb", ".", {}⟩ workshop (.ok .empty) "-x"
      (.over .negate [.identifier .variable ⟨"x"⟩]) ["work", "in.asm"] := {
    input := ⟨["work", "in.kb"], by decide +kernel, rfl⟩
    accepted := Parser.engine_of_reading Listing.negation default false false Listing.engine_negation hreading _ _ _
    creatable := ⟨by decide +kernel, by rintro ⟨⟩⟩ }
  obtain ⟨-, hruns⟩ := runGiven_outcome workshop ["in.kb", "."] (.ok .empty)
  obtain ⟨hcode, hwrites, -⟩ := hruns _ hwords
  obtain ⟨-, hfailures⟩ := runGiven_outcome workshop ["in.kb", "gone"] (.ok .empty)
  obtain ⟨-, -, hfails⟩ := hfailures _ hgone
  have hnone : ∀ text tree place,
      ¬ Invocation.Compiles ⟨.file "in.kb", "gone", {}⟩ workshop (.ok .empty) text tree place := by
    intro text tree place hcompiles
    have hnowhere : workshop.resolve "gone/in.asm" = .error .notFound := by decide +kernel
    cases hnowhere.symm.trans hcompiles.creatable.leads
  have hwhole : ¬ Invocation.BreaksOff ⟨.file "in.kb", "gone", {}⟩ workshop (.ok .empty) :=
    not_breaksOff_of_accepted (opened_eq_ok_iff.2 hcompiles.input) hcompiles.accepted
  obtain ⟨hfiles, -, hone⟩ := hfails hnone
  exact ⟨hcode.2 ⟨_, _, _, hcompiles⟩, (hwrites _ _ _ hcompiles).1.holds, hone hwhole, hfiles⟩

end Program

end FormulaCompiler
