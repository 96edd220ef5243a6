import FormulaCompiler.Parser.Rule
import FormulaCompiler.Proofs.Grammar.Phrase

/-!
# Runs of parser rules

What the rest of the theory says about a rule is where it gets to. `Leads` says that a rule comes, after
reading some tokens, to where another rule would go on; `Fails` says that it fails, and why. A phrase of
the grammar is read completely unless it exceeds one of the limits, in which case the parser gives up
with the error for that; `Runs` and `Stops` say both at once, so that the limits of a phrase are put
together from those of its parts and never argued about separately.

None of these mention the log, which no rule reads.
-/

namespace FormulaCompiler.Parser

variable {α β : Type}

/-! ### States -/

/-- The state after some tokens have been read and others are left. -/
def State.past (s : State) (read rest : List (Spanned Token)) : State :=
  { s with tokens := rest, lastRead := read.foldl (fun _ token => token.span) s.lastRead }

namespace State

variable (s : State) (read more rest : List (Spanned Token))

@[simp] theorem past_tokens : (s.past read rest).tokens = rest := rfl

@[simp] theorem past_constants : (s.past read rest).constants = s.constants := rfl

@[simp] theorem past_past (left : List (Spanned Token)) :
    (s.past read left).past more rest = s.past (read ++ more) rest := by
  simp [past, List.foldl_append]

@[simp] theorem past_lastRead_concat (token : Spanned Token) :
    (s.past (read ++ [token]) rest).lastRead = token.span := by
  simp [past, List.foldl_append]

theorem past_lastRead : (s.past read rest).lastRead = (read.getLast?.map (·.span)).getD s.lastRead := by
  rcases List.eq_nil_or_concat read with rfl | ⟨before, token, rfl⟩
  · rfl
  · simp

theorem past_nil {s : State} {rest : List (Spanned Token)} (h : s.tokens = rest) : s.past [] rest = s := by
  rw [← h]
  rfl

end State

/-! ### Where a rule leads -/

/-- Running `rule` from `s` comes to running `next` from `t`. -/
def Leads (rule : Rule α) (s : State) (next : Rule α) (t : State) : Prop :=
  ∀ log, ∃ log', rule { s with log } = next { t with log := log' }

/-- Running `rule` from `s` fails, and for a reason that `why` holds of. -/
def Fails (rule : Rule α) (s : State) (why : Failure → Prop) : Prop :=
  ∀ log, ∃ failure after, rule { s with log } = .error failure after ∧ why failure

/-- The failure of a parse that nests too deep or whose tree grows too high. -/
def Overrun (failure : Failure) : Prop :=
  failure.recoverable = false ∧ ∃ limit, failure.error.value = .nestingTooDeep limit

/-- Running `rule` from `s` comes to running `next` from `t` if the limits are kept, and to an overrun if
not. -/
structure Runs (rule : Rule α) (s : State) (fits : Prop) (next : Rule α) (t : State) : Prop where
  leads : fits → Leads rule s next t
  overruns : ¬ fits → Fails rule s Overrun

/-- Running `rule` from `s` ends in a certain failure if the limits are kept, and in an overrun if not. -/
structure Stops (rule : Rule α) (s : State) (fits : Prop) (failure : Failure) : Prop where
  fails : fits → Fails rule s (· = failure)
  overruns : ¬ fits → Fails rule s Overrun

section

variable {a b c : Rule α} {s t u : State} {fits fits' : Prop} {why : Failure → Prop} {failure : Failure}

theorem Leads.of_eq (h : ∀ log, a { s with log } = b { t with log }) : Leads a s b t :=
  fun log => ⟨log, h log⟩

theorem Leads.refl : Leads a s a s := .of_eq fun _ => rfl

theorem Leads.trans (hab : Leads a s b t) (hbc : Leads b t c u) : Leads a s c u := by
  intro log
  obtain ⟨log', hab⟩ := hab log
  obtain ⟨log'', hbc⟩ := hbc log'
  exact ⟨log'', hab.trans hbc⟩

theorem Leads.bind (h : Leads a s b t) (f : α → Rule β) : Leads (a >>= f) s (b >>= f) t := by
  intro log
  obtain ⟨log', h⟩ := h log
  refine ⟨log', ?_⟩
  change EStateM.bind a f _ = EStateM.bind b f _
  simp only [EStateM.bind, h]

theorem Leads.fails (h : Leads a s b t) (hb : Fails b t why) : Fails a s why := by
  intro log
  obtain ⟨log', h⟩ := h log
  obtain ⟨failure, after, hb, hwhy⟩ := hb log'
  exact ⟨failure, after, h.trans hb, hwhy⟩

theorem Fails.bind (h : Fails a s why) (f : α → Rule β) : Fails (a >>= f) s why := by
  intro log
  obtain ⟨failure, after, h, hwhy⟩ := h log
  refine ⟨failure, after, ?_, hwhy⟩
  change EStateM.bind a f _ = _
  simp only [EStateM.bind, h]

theorem Fails.mono {why' : Failure → Prop} (h : Fails a s why)
    (himp : ∀ failure, why failure → why' failure) : Fails a s why' := by
  intro log
  obtain ⟨failure, after, h, hwhy⟩ := h log
  exact ⟨failure, after, h, himp failure hwhy⟩

theorem Runs.refl : Runs a s True a s :=
  ⟨fun _ => .of_eq fun _ => rfl, fun h => absurd trivial h⟩

theorem Runs.congr (h : Runs a s fits b t) (hiff : fits ↔ fits') : Runs a s fits' b t :=
  ⟨fun hfits => h.leads (hiff.2 hfits), fun hnot => h.overruns (hnot ∘ hiff.1)⟩

theorem Runs.moved (h : Runs a s fits b t) (hstate : t = u) : Runs a s fits b u := hstate ▸ h

theorem Runs.bind (h : Runs a s fits b t) (f : α → Rule β) : Runs (a >>= f) s fits (b >>= f) t :=
  ⟨fun hfits => (h.leads hfits).bind f, fun hnot => (h.overruns hnot).bind f⟩

theorem Leads.runs (h : Leads a s b t) (hb : Runs b t fits c u) : Runs a s fits c u :=
  ⟨fun hfits => h.trans (hb.leads hfits), fun hnot => h.fails (hb.overruns hnot)⟩

theorem Runs.trans (h : Runs a s fits b t) (hb : Runs b t fits' c u) : Runs a s (fits ∧ fits') c u := by
  by_cases hfits : fits
  · exact ((h.leads hfits).runs hb).congr (by simp [hfits])
  · exact ⟨fun hboth => absurd hboth.1 hfits, fun _ => h.overruns hfits⟩

theorem Stops.congr (h : Stops a s fits failure) (hiff : fits ↔ fits') : Stops a s fits' failure :=
  ⟨fun hfits => h.fails (hiff.2 hfits), fun hnot => h.overruns (hnot ∘ hiff.1)⟩

theorem Stops.bind (h : Stops a s fits failure) (f : α → Rule β) : Stops (a >>= f) s fits failure :=
  ⟨fun hfits => (h.fails hfits).bind f, fun hnot => (h.overruns hnot).bind f⟩

theorem Leads.stops (h : Leads a s b t) (hb : Stops b t fits failure) : Stops a s fits failure :=
  ⟨fun hfits => h.fails (hb.fails hfits), fun hnot => h.fails (hb.overruns hnot)⟩

theorem Runs.stops (h : Runs a s fits b t) (hb : Stops b t fits' failure) :
    Stops a s (fits ∧ fits') failure := by
  by_cases hfits : fits
  · exact ((h.leads hfits).stops hb).congr (by simp [hfits])
  · exact ⟨fun hboth => absurd hboth.1 hfits, fun _ => h.overruns hfits⟩

theorem Fails.stops (h : Fails a s (· = failure)) : Stops a s True failure :=
  ⟨fun _ => h, fun hnot => absurd trivial hnot⟩

/-- A rule that gives a value hands it to what comes after. -/
theorem Runs.andThen {value : α} {f : α → Rule β} {next : Rule β} (h : Runs a s fits (pure value) t)
    (hf : Runs (f value) t fits' next u) : Runs (a >>= f) s (fits ∧ fits') next u := by
  have := h.bind f
  rw [pure_bind] at this
  exact this.trans hf

theorem Leads.andThen {value : α} {f : α → Rule β} {next : Rule β} (h : Leads a s (pure value) t)
    (hf : Leads (f value) t next u) : Leads (a >>= f) s next u := by
  have := h.bind f
  rw [pure_bind] at this
  exact this.trans hf

theorem Runs.andStops {value : α} {f : α → Rule β} (h : Runs a s fits (pure value) t)
    (hf : Stops (f value) t fits' failure) : Stops (a >>= f) s (fits ∧ fits') failure := by
  have := h.bind f
  rw [pure_bind] at this
  exact this.stops hf

end

/-! ### Recoverable failures -/

section

variable {rule : Rule α} {s t : State} {fits : Prop} {value : α} {failure : Failure}

/-- Deciding whether a failure can be recovered from changes nothing about a success. -/
theorem Leads.failing (h : Leads rule s (pure value) t) (recoverable : Bool) :
    Leads (failing recoverable rule) s (pure value) t := by
  intro log
  obtain ⟨log', h⟩ := h log
  refine ⟨log', ?_⟩
  simp only [Parser.failing, h]
  rfl

theorem Fails.failing {why : Failure → Prop} (h : Fails rule s why) (recoverable : Bool) :
    Fails (failing recoverable rule) s
      fun failure => ∃ before, why before ∧ failure = { before with recoverable } := by
  intro log
  obtain ⟨failure, after, h, hwhy⟩ := h log
  exact ⟨{ failure with recoverable }, after, by simp only [Parser.failing, h], failure, hwhy, rfl⟩

theorem Runs.committed (h : Runs rule s fits (pure value) t) :
    Runs (committed rule) s fits (pure value) t := by
  refine ⟨fun hfits => (h.leads hfits).failing false, fun hnot => ?_⟩
  refine ((h.overruns hnot).failing false).mono ?_
  rintro _ ⟨before, hbefore, rfl⟩
  exact ⟨rfl, hbefore.2⟩

theorem Stops.committed (h : Stops rule s fits failure) :
    Stops (committed rule) s fits { failure with recoverable := false } := by
  refine ⟨fun hfits => ?_, fun hnot => ?_⟩
  · refine ((h.fails hfits).failing false).mono ?_
    rintro _ ⟨before, rfl, rfl⟩
    rfl
  · refine ((h.overruns hnot).failing false).mono ?_
    rintro _ ⟨before, hbefore, rfl⟩
    exact ⟨rfl, hbefore.2⟩

theorem Runs.optional (h : Runs rule s fits (pure value) t) :
    Runs (optional rule) s fits (pure (some value)) t := by
  refine ⟨fun hfits log => ?_, fun hnot log => ?_⟩
  · obtain ⟨log', h⟩ := h.leads hfits log
    refine ⟨log', ?_⟩
    simp only [Parser.optional, h]
    rfl
  · obtain ⟨failure, after, h, hover⟩ := h.overruns hnot log
    refine ⟨failure, { s with log := after.log }, ?_, hover⟩
    simp only [Parser.optional, h, hover.1]
    rfl

/-- A failure that can be recovered from leaves no trace outside the log. -/
theorem Leads.optional_none {why : Failure → Prop} (h : Fails rule s why)
    (hwhy : ∀ failure, why failure → failure.recoverable = true) :
    Leads (optional rule) s (pure none) s := by
  intro log
  obtain ⟨failure, after, h, hfailure⟩ := h log
  refine ⟨after.log, ?_⟩
  simp only [Parser.optional, h, hwhy failure hfailure]
  rfl

theorem Stops.optional (h : Stops rule s fits failure) (hfailure : failure.recoverable = false) :
    Stops (optional rule) s fits failure := by
  refine ⟨fun hfits log => ?_, fun hnot log => ?_⟩
  · obtain ⟨_, after, hrule, rfl⟩ := h.fails hfits log
    refine ⟨_, { s with log := after.log }, ?_, rfl⟩
    simp only [Parser.optional, hrule, hfailure]
    rfl
  · obtain ⟨failure, after, h, hover⟩ := h.overruns hnot log
    refine ⟨failure, { s with log := after.log }, ?_, hover⟩
    simp only [Parser.optional, h, hover.1]
    rfl

end

/-! ### Reading -/

section

variable {s t : State} {fits : Prop} {token : Spanned Token} {rest : List (Spanned Token)}

theorem Leads.peek (f : Option Token → Rule β) :
    Leads (peek >>= f) s (f (s.tokens.head?.map (·.value))) s :=
  .of_eq fun _ => rfl

theorem Leads.tokensLeft (f : List (Spanned Token) → Rule β) :
    Leads (tokensLeft >>= f) s (f s.tokens) s :=
  .of_eq fun _ => rfl

theorem Leads.next (h : s.tokens = token :: rest) (f : Token → Rule β) :
    Leads (next >>= f) s (f token.value) (s.past [token] rest) := by
  refine .of_eq fun log => ?_
  obtain ⟨tokens, lastRead, constants, depth, traced, _⟩ := s
  subst h
  rfl

theorem Fails.next (h : s.tokens = []) :
    Fails next s (· = ⟨⟨.unexpectedEnd, s.lastRead⟩, false⟩) := by
  intro log
  obtain ⟨tokens, lastRead, constants, depth, traced, _⟩ := s
  subst h
  exact ⟨_, _, rfl, rfl⟩

private theorem same_symbol (token : Token) (symbol : Symbol) :
    (token == .symbol symbol) = decide (token = .symbol symbol) := by
  cases token with
  | symbol other =>
      change (other == symbol) = _
      simp only [Token.symbol.injEq]
      rfl
  | _ => simp only [reduceCtorEq, decide_false]; rfl

theorem Leads.expect {symbol : Symbol} (h : s.tokens = token :: rest) (htoken : token.value = .symbol symbol)
    (f : Unit → Rule β) : Leads (expect (.symbol symbol) >>= f) s (f ()) (s.past [token] rest) := by
  have hsame : (token.value == .symbol symbol) = true := by
    rw [same_symbol, htoken, decide_eq_true rfl]
  have hexpect (log : Log) :
      Parser.expect (.symbol symbol) { s with log } = (pure () : Rule Unit) { s.past [token] rest with log } := by
    obtain ⟨tokens, lastRead, constants, depth, traced, _⟩ := s
    subst h
    change (if token.value == .symbol symbol then _ else _ : Rule Unit) _ = _
    rw [if_pos hsame]
    rfl
  have := (Leads.of_eq hexpect).bind f
  rwa [pure_bind] at this

theorem Fails.expect {symbol : Symbol} (h : s.tokens = token :: rest)
    (htoken : token.value ≠ .symbol symbol) :
    Fails (expect (.symbol symbol)) s
      (· = ⟨⟨.unexpectedToken (.symbol symbol) token.value, token.span⟩, false⟩) := by
  have hsame : ¬ (token.value == .symbol symbol) = true := by
    rw [same_symbol, decide_eq_true_eq]
    exact htoken
  intro log
  obtain ⟨tokens, lastRead, constants, depth, traced, _⟩ := s
  subst h
  refine ⟨_, ⟨rest, token.span, constants, depth, traced, log⟩, ?_, rfl⟩
  change (if token.value == .symbol symbol then _ else _ : Rule Unit) _ = _
  rw [if_neg hsame]
  rfl

theorem Fails.expect_end {wanted : Token} (h : s.tokens = []) :
    Fails (Parser.expect wanted) s (· = ⟨⟨.missingToken wanted, s.lastRead⟩, false⟩) := by
  intro log
  obtain ⟨tokens, lastRead, constants, depth, traced, _⟩ := s
  subst h
  exact ⟨_, _, rfl, rfl⟩

end

/-! ### Nesting and building -/

section

variable {rule : Rule α} {s : State} {value : α} {failure : Failure} {levels : Nat} {fits : Nat → Prop}
  {read rest : List (Spanned Token)}

/-- The state one level deeper. -/
def State.deeper (s : State) : State := { s with depth := s.depth + 1 }

/-- What is left to do once a rule one level deeper has given its value. -/
def ascend (value : α) : Rule α := do
  modify fun state => { state with depth := state.depth - 1 }
  return value

theorem deeper_eq (rule : Rule α) (h : s.depth < nestingLimit) :
    deeper rule s = (rule >>= ascend) s.deeper := by
  change (if nestingLimit ≤ s.depth then _ else _ : Rule α) s = _
  rw [if_neg (Nat.not_le.2 h)]
  rfl

/-- A limit on nesting counts for the rule inside; where no level is left it is exceeded at once. -/
theorem Fails.deeper (hdepth : s.depth = nestingLimit) (rule : Rule α) :
    Fails (deeper rule) s Overrun := by
  intro log
  have hle : nestingLimit ≤ s.depth := Nat.le_of_eq hdepth.symm
  refine ⟨⟨⟨.nestingTooDeep nestingLimit, s.lastRead⟩, false⟩, { s with log }, ?_, rfl, nestingLimit, rfl⟩
  change (if nestingLimit ≤ s.depth then _ else _ : Rule α) _ = _
  rw [if_pos hle]
  rfl

theorem Runs.deeper {fits : Prop} (hdepth : s.depth < nestingLimit)
    (h : Runs rule s.deeper fits (pure value) (s.deeper.past read rest)) :
    Runs (deeper rule) s fits (pure value) (s.past read rest) := by
  have hdown : Leads (Parser.deeper rule) s (rule >>= ascend) s.deeper :=
    .of_eq fun log => deeper_eq (s := { s with log }) rule hdepth
  have hup : Leads (ascend value) (s.deeper.past read rest) (pure value) (s.past read rest) :=
    .of_eq fun _ => rfl
  exact (hdown.runs (h.andThen (hup.runs .refl))).congr (by simp)

theorem Stops.deeper {fits : Prop} (hdepth : s.depth < nestingLimit) (h : Stops rule s.deeper fits failure) :
    Stops (deeper rule) s fits failure := by
  have hdown : Leads (Parser.deeper rule) s (rule >>= ascend) s.deeper :=
    .of_eq fun log => deeper_eq (s := { s with log }) rule hdepth
  exact hdown.stops (h.bind ascend)

end

/-- What is left to do once an operation has been built: it is logged, if the parser is traced. -/
def announce (node : Node) : Rule Node := do
  let state ← get
  if state.traced then
    let entry := ⟨.trace, "reduced " ++ node.text ++ " at " ++ state.lastRead.text⟩
    modify fun state => { state with log := state.log.push entry }
  return node

theorem operation_eq (operator : Operator) (operands : List Node) (s : State) :
    operation operator operands s =
      (if heightLimit < Node.heightOver operands then fail (.nestingTooDeep heightLimit)
      else announce (Node.over operator operands)) s := by
  rw [Parser.operation, Node.edited_eq_ok_iff.2 (Node.appendAll_ofCode _ _)]
  change (if heightLimit < Node.heightOver operands then _ else _ : Rule Node) s = _
  split
  · rfl
  · rfl

theorem Runs.operation (operator : Operator) (operands : List Node) (s : State) :
    Runs (operation operator operands) s (Node.heightOver operands ≤ heightLimit)
      (pure (Node.over operator operands)) s := by
  refine ⟨fun hfits log => ?_, fun hnot log => ?_⟩
  · rw [operation_eq, if_neg (Nat.not_lt.2 hfits)]
    change ∃ log', (if s.traced = true then _ else _ : Rule Node) { s with log } = _
    split
    · exact ⟨_, rfl⟩
    · exact ⟨_, rfl⟩
  · rw [operation_eq, if_pos (Nat.not_le.1 hnot)]
    exact ⟨_, { s with log }, rfl, rfl, heightLimit, rfl⟩

end FormulaCompiler.Parser
