import FormulaCompiler.Engine
import FormulaCompiler.Proofs.Parser.Units

/-!
# What the parser accepts

Main statement: the parser gives a tree for some tokens if and only if they are a sentence that keeps the
limits, and the tree is that of the sentence; on a sentence that exceeds a limit it says so
(`parse_accepts`). That no other tokens are accepted follows from the grammar alone: tokens that are no
sentence get stuck, and where tokens get stuck the parser stops.
-/

namespace FormulaCompiler.Parser

variable {start : Span} {tokens : List (Spanned Token)} {traced : Bool} {log : Log}

/-- The state in which a parse begins. -/
def initial (start : Span) (tokens : List (Spanned Token)) (traced : Bool) (log : Log) : State :=
  { tokens, lastRead := start, traced, log }

theorem parse_eq : parse start tokens traced log =
    match unit (initial start tokens traced log) with
    | .ok node after => (.ok node, after.log)
    | .error failure after => (.error failure.error, after.log) := rfl

theorem parse_eq_ok {node : Node} {t : State} (h : Leads unit (initial start tokens traced log) (pure node) t) :
    (parse start tokens traced log).1 = .ok node := by
  obtain ⟨log', h⟩ := h log
  have hunit : unit (initial start tokens traced log) = .ok node { t with log := log' } := h
  rw [parse_eq, hunit]

theorem parse_eq_error {why : Failure → Prop} (h : Fails unit (initial start tokens traced log) why) :
    ∃ failure, (parse start tokens traced log).1 = .error failure.error ∧ why failure := by
  obtain ⟨failure, after, h, hwhy⟩ := h log
  have hunit : unit (initial start tokens traced log) = .error failure after := h
  exact ⟨failure, by rw [parse_eq, hunit], hwhy⟩

/-- A parse that overran a limit says which. -/
theorem parse_eq_tooDeep (h : Fails unit (initial start tokens traced log) Overrun) :
    ∃ limit span, (parse start tokens traced log).1 = .error ⟨.nestingTooDeep limit, span⟩ := by
  obtain ⟨⟨⟨_, span⟩, recoverable⟩, hparse, -, limit, rfl⟩ := parse_eq_error h
  exact ⟨limit, span, hparse⟩

theorem inFrontOf_initial {values : List Token} {read rest : List (Spanned Token)} (htokens : tokens = read ++ rest)
    (hvalues : valuesOf read = values) (hnamed : ∀ token ∈ read, token.value.Named) :
    InFrontOf values nestingLimit (initial start tokens traced log) read rest := by
  refine ⟨htokens, hvalues, Nat.zero_add _, ?_⟩
  rw [← hvalues, valuesOf, List.forall_mem_map]
  exact hnamed

theorem parse_sentence (start : Span) (traced : Bool) (log : Log) {sentence : Sentence}
    (hsentence : sentence.tokens = valuesOf tokens) (hnamed : ∀ token ∈ tokens, token.value.Named) :
    (sentence.nesting ≤ 128 ∧ sentence.tree.height ≤ 512 →
      (parse start tokens traced log).1 = .ok sentence.tree) ∧
    (¬ (sentence.nesting ≤ 128 ∧ sentence.tree.height ≤ 512) →
      ∃ limit span, (parse start tokens traced log).1 = .error ⟨.nestingTooDeep limit, span⟩) := by
  obtain ⟨t, hruns⟩ := readsUnit (s := initial start tokens traced log)
    (inFrontOf_initial (by simp) hsentence.symm hnamed) rfl
  exact ⟨fun hlimits => parse_eq_ok (hruns.leads hlimits), fun hlimits => parse_eq_tooDeep (hruns.overruns hlimits)⟩

/-- What the parser does on tokens that get stuck, whatever comes after the token on which they do. -/
theorem parse_stuck {next : Option Token} {wanted : Wanted} {values : List Token}
    (h : UnitStuck next wanted values) :
    ∃ fits : Prop, ∀ (start : Span) (before after : List (Spanned Token)) (traced : Bool) (log : Log),
      valuesOf before = values → (valuesOf after).head? = next → (∀ token ∈ before, token.value.Named) →
        (fits → (parse start (before ++ after) traced log).1 =
          .error ⟨wanted.error next, blamed ((before.getLast?.map (·.span)).getD start) after⟩) ∧
        (¬ fits → ∃ limit span,
          (parse start (before ++ after) traced log).1 = .error ⟨.nestingTooDeep limit, span⟩) := by
  obtain ⟨fits, hstops⟩ := stopsUnit h
  refine ⟨fits, fun start before after traced log hbefore hafter hnamed => ?_⟩
  have hfront : InFrontOf values nestingLimit (initial start (before ++ after) traced log) before after :=
    inFrontOf_initial rfl hbefore hnamed
  obtain ⟨failure, herror, hstops⟩ := hstops hfront hafter rfl
  refine ⟨fun hfits => ?_, fun hfits => parse_eq_tooDeep (hstops.overruns hfits)⟩
  obtain ⟨failure, hparse, rfl⟩ := parse_eq_error (hstops.fails hfits)
  rw [hparse, herror, lacking, State.past_lastRead, hafter]
  rfl

/-- A tree that the parser gives is that of a sentence, since tokens that are no sentence get stuck. -/
theorem exists_sentence_of_parse {node : Node} (hnamed : ∀ token ∈ tokens, token.value.Named)
    (hparse : (parse start tokens traced log).1 = .ok node) :
    ∃ sentence : Sentence, sentence.tokens = valuesOf tokens ∧ sentence.nesting ≤ 128 ∧
      sentence.tree = node ∧ node.height ≤ 512 := by
  rcases splitsUnit (valuesOf tokens) with ⟨sentence, hsentence⟩ | ⟨wanted, read, rest, hvalues, hstuck⟩
  · by_cases hlimits : sentence.nesting ≤ 128 ∧ sentence.tree.height ≤ 512
    · have htree := (parse_sentence start traced log hsentence.symm hnamed).1 hlimits
      obtain rfl := Except.ok.inj (htree.symm.trans hparse)
      exact ⟨sentence, hsentence.symm, hlimits.1, rfl, hlimits.2⟩
    · obtain ⟨limit, span, htooDeep⟩ :=
        (parse_sentence start traced log hsentence.symm hnamed).2 hlimits
      cases htooDeep.symm.trans hparse
  · obtain ⟨before, after, rfl, hbefore, hafter⟩ := valuesOf_eq_append.1 hvalues
    obtain ⟨fits, hstops⟩ := parse_stuck hstuck
    obtain ⟨hfails, hoverruns⟩ := hstops start before after traced log hbefore (by rw [hafter])
      fun token hmem => hnamed token (List.mem_append_left _ hmem)
    by_cases hfits : fits
    · cases (hfails hfits).symm.trans hparse
    · obtain ⟨limit, span, htooDeep⟩ := hoverruns hfits
      cases htooDeep.symm.trans hparse

/-- **The parser accepts the sentences of the grammar that keep the limits.** -/
theorem parse_accepts (start : Span) (tokens : List (Spanned Token)) (traced : Bool) (log : Log)
    (hnamed : ∀ token ∈ tokens, token.value.Named) :
    (∀ node, (parse start tokens traced log).1 = .ok node ↔
      ∃ sentence : Sentence, sentence.tokens = valuesOf tokens ∧ sentence.nesting ≤ 128 ∧
        sentence.tree = node ∧ node.height ≤ 512) ∧
    ∀ sentence : Sentence, sentence.tokens = valuesOf tokens →
      ¬ (sentence.nesting ≤ 128 ∧ sentence.tree.height ≤ 512) →
        ∃ limit span, (parse start tokens traced log).1 = .error ⟨.nestingTooDeep limit, span⟩ := by
  refine ⟨fun node => ⟨exists_sentence_of_parse hnamed, ?_⟩, fun sentence hsentence => ?_⟩
  · rintro ⟨sentence, hsentence, hnesting, rfl, hheight⟩
    exact (parse_sentence start traced log hsentence hnamed).1 ⟨hnesting, hheight⟩
  · exact (parse_sentence start traced log hsentence hnamed).2

/-- Tokens that are all at the same place. -/
def inOnePlace (values : List Token) : List (Spanned Token) := values.map fun value => ⟨value, default⟩

theorem valuesOf_inOnePlace (values : List Token) : valuesOf (inOnePlace values) = values := by
  induction values with
  | nil => rfl
  | cons value values ih => exact congrArg (value :: ·) ih

/-- The derivation of `a - b - c`. -/
def differences : Sentence :=
  ⟨.bare (.ofSum (.added (.added (.ofProduct (operand "a")) .minus (operand "b")) .minus (operand "c"))), [], false⟩
where
  operand (name : String) : Phrase .product := .ofPower (.ofSigned (.ofAtom (.name ⟨name⟩)))

/-- Of two differences in a row the left one is taken first. -/
theorem parse_accepts_differences :
    (∀ token ∈ inOnePlace differences.tokens, token.value.Named) ∧
    (parse default (inOnePlace differences.tokens) false #[]).1 =
      .ok (.over .subtract [.over .subtract [.identifier .variable ⟨"a"⟩, .identifier .variable ⟨"b"⟩],
        .identifier .variable ⟨"c"⟩]) := by
  have hnamed : ∀ token ∈ inOnePlace differences.tokens, token.value.Named := by
    simp [inOnePlace, differences, Sentence.tokens, seriesTokens, Statement.tokens, Phrase.tokens,
      differences.operand, Token.Named]
  exact ⟨hnamed, ((parse_accepts _ _ _ _ hnamed).1 _).2 ⟨differences, rfl, by decide, rfl, by decide⟩⟩

end FormulaCompiler.Parser
