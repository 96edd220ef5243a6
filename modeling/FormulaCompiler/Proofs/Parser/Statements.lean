import FormulaCompiler.Proofs.Grammar.StuckUnit
import FormulaCompiler.Proofs.Parser.Stops

/-!
# The parser reads statements

Main statements: in front of a statement that ends where it does, the parser reads exactly the statement,
gives its tree and knows the constant it declares (`readsStatement`); where some tokens get stuck in a
statement, it stops for that (`stopsStatement`). What kind of statement it is shows in the first token, or in
the second: the attempt at an assignment that turns out to be none is undone before the expression is read.
-/

namespace FormulaCompiler.Parser

variable {s : State} {token : Spanned Token} {read rest : List (Spanned Token)}

/-! ### What is left of a statement -/

/-- What is left to do after the value of a declaration. -/
def boundEnd (binding : Binding) (name value : Node) : Rule Node :=
  match binding with
  | .constant => do
      addConstant name
      operation .defineConst [name, value]
  | .variable => operation .defineLet [name, value]

/-- What is left to do after the keyword of a declaration. -/
def boundRest (binding : Binding) : Rule Node := do
  let declared ← declaration binding.kind
  boundEnd binding declared.1 declared.2

/-- What is left to do after the body of a function. -/
def functionEnd (name : Node) (parameters : List Node) (body : Node) : Rule Node := do
  let parameters ← operation .parameters parameters
  operation .function [name, parameters, body]

/-- What is left to do after the signature of a function. -/
def bodyRest (name : Node) (parameters : List Node) : Rule Node := do
  expect (.symbol .assign)
  committed outerExpression >>= functionEnd name parameters

/-- What is left to do after the parameters of a function. -/
def parametersEnd (name : Node) (parameters : List Node) : Rule Node := do
  expect (.symbol .closeParen)
  bodyRest name parameters

/-- The rule for one parameter. -/
def parameter : Rule Node := tentative (nameOf .variable)

/-- What is left to do after the name of a function. -/
def functionRest (name : Node) : Rule Node := do
  expect (.symbol .openParen)
  commaList parameter >>= parametersEnd name

/-- What is left to do after the equals sign of an assignment. -/
def assignedRest (target : Node) : Rule Node :=
  committed outerExpression >>= fun value => operation .assign [target, value]

theorem Leads.binding (binding : Binding) (h : s.tokens = token :: rest)
    (htoken : token.value = .keyword binding.keyword) :
    Leads statement s (boundRest binding) (s.past [token] rest) := by
  refine (Leads.peek_some h _).trans ?_
  rw [htoken]
  cases binding with
  | constant => exact Leads.next h _
  | «variable» => exact Leads.next h _

theorem Leads.fn (h : s.tokens = token :: rest) (htoken : token.value = .keyword .fnDecl) :
    Leads statement s (Parser.nameOf .function >>= functionRest) (s.past [token] rest) := by
  refine (Leads.peek_some h _).trans ?_
  rw [htoken]
  obtain ⟨value, span⟩ := token
  subst htoken
  obtain ⟨tokens, lastRead, constants, depth, traced, _⟩ := s
  subst h
  exact .of_eq fun log => rfl

/-! ### Names -/

theorem Fails.nameOf {kind : IdentifierKind} (hnext : NamesNone (valuesOf s.tokens).head?) :
    Fails (nameOf kind) s
      (· = ⟨⟨Wanted.name.error (valuesOf s.tokens).head?, blamed s.lastRead s.tokens⟩, false⟩) := by
  refine Fails.bind ?_ _
  cases htokens : s.tokens with
  | nil => exact (Fails.next htokens).bind _
  | cons token rest =>
      rw [htokens] at hnext
      refine (Leads.next htokens _).fails ?_
      split
      · rename_i name htoken
        exact absurd (by simp [htoken]) (hnext name)
      · exact fun log => ⟨_, _, rfl, rfl⟩

theorem Stops.nameOf {kind : IdentifierKind} (s : State) (read : List (Spanned Token)) (hread : read ≠ [])
    (hnext : NamesNone (valuesOf rest).head?) :
    Stops (nameOf kind) (s.past read rest) True (lacking .name s read rest) := by
  refine ((Fails.nameOf hnext).mono ?_).stops
  rintro _ rfl
  simp [lacking, hread]

theorem Leads.noParameter (hnext : NamesNone (valuesOf s.tokens).head?) :
    Leads (commaList parameter) s (pure []) s := by
  have hnone : Leads (Parser.optional parameter) s (pure none) s := by
    refine .optional_none ((Fails.nameOf hnext).failing true) ?_
    rintro _ ⟨before, -, rfl⟩
    rfl
  exact (hnone.bind (itemsRest parameter)).trans .refl

/-- The further parameters of a function. -/
theorem Leads.parameters {others : List Identifier} (hnamed : ∀ name ∈ others, name.spelling ≠ "")
    (rounds : List (Spanned Token)) (reversed : List Node) (htokens : s.tokens = read ++ rest)
    (hvalues : valuesOf read = others.flatMap fun name => [.symbol .comma, .identifier name])
    (hrounds : s.tokens.length ≤ rounds.length) :
    ∃ rounds', rest.length ≤ rounds'.length ∧
      Leads (moreItems parameter rounds reversed) s
        (moreItems parameter rounds' ((others.map (.identifier .variable)).reverse ++ reversed))
        (s.past read rest) := by
  induction others generalizing s read rounds reversed with
  | nil =>
      obtain rfl := List.map_eq_nil_iff.1 hvalues
      have hstate : s.past [] rest = s := State.past_nil htokens
      rw [hstate]
      exact ⟨rounds, by simpa [htokens] using hrounds, .refl⟩
  | cons name others ih =>
      obtain ⟨comma, read, rfl, hcomma, hvalues⟩ := valuesOf_eq_cons.1 hvalues
      obtain ⟨token, read, rfl, htoken, hvalues⟩ := valuesOf_eq_cons.1 hvalues
      cases rounds with
      | nil => simp [htokens] at hrounds
      | cons round rounds =>
          have hname : Leads parameter (s.past [comma] (token :: (read ++ rest)))
              (pure (.identifier .variable name)) (s.past [comma, token] (read ++ rest)) := by
            have hread := Leads.nameOf (s := s.past [comma] (token :: (read ++ rest))) .variable rfl htoken
              (hnamed name (List.mem_cons_self ..))
            rw [State.past_past] at hread
            exact hread.failing true
          obtain ⟨rounds', hrounds', hothers⟩ := ih (s := s.past [comma, token] (read ++ rest))
            (fun name hmem => hnamed name (List.mem_cons_of_mem _ hmem)) rounds
            (.identifier .variable name :: reversed) rfl hvalues (by simp [htokens] at hrounds ⊢; omega)
          refine ⟨rounds', hrounds', ((Runs.nextItem round htokens hcomma (hname.runs .refl)).leads trivial).trans ?_⟩
          simpa using hothers

/-- At least one parameter of a function. -/
theorem Leads.firstParameters {first : Identifier} {others : List Identifier}
    (hnamed : ∀ name ∈ first :: others, name.spelling ≠ "") (htokens : s.tokens = read ++ rest)
    (hvalues : valuesOf read = parameterTokens (first :: others)) :
    ∃ rounds, rest.length ≤ rounds.length ∧
      Leads (commaList parameter) s
        (moreItems parameter rounds ((first :: others).map (.identifier .variable)).reverse)
        (s.past read rest) := by
  obtain ⟨token, read, rfl, htoken, hvalues⟩ := valuesOf_eq_cons.1 hvalues
  have hfirst : Leads parameter s (pure (.identifier .variable first)) (s.past [token] (read ++ rest)) :=
    (Leads.nameOf .variable htokens htoken (hnamed first (List.mem_cons_self ..))).failing true
  obtain ⟨rounds, hrounds, hothers⟩ := Leads.parameters (s := s.past [token] (read ++ rest))
    (fun name hmem => hnamed name (List.mem_cons_of_mem _ hmem)) (read ++ rest) [.identifier .variable first]
    rfl hvalues (Nat.le_refl _)
  have hoptional := ((hfirst.runs .refl).optional.leads trivial).andThen (f := itemsRest parameter)
    ((Leads.tokensLeft _).trans hothers)
  refine ⟨rounds, hrounds, hoptional.trans ?_⟩
  simp only [List.map_cons, List.reverse_cons, State.past_past]
  exact .refl

/-- The parameters of a function are read to the end, which no name and no comma follows. -/
theorem Leads.allParameters {parameters : List Identifier} (hnamed : ∀ name ∈ parameters, name.spelling ≠ "")
    (htokens : s.tokens = read ++ rest) (hvalues : valuesOf read = parameterTokens parameters)
    (hnone : parameters = [] → NamesNone (valuesOf rest).head?)
    (hcomma : parameters ≠ [] → (valuesOf rest).head? ≠ some (.symbol .comma)) :
    Leads (commaList parameter) s (pure (parameters.map (.identifier .variable))) (s.past read rest) := by
  cases parameters with
  | nil =>
      obtain rfl := List.map_eq_nil_iff.1 hvalues
      rw [List.nil_append] at htokens
      rw [State.past_nil htokens]
      exact .noParameter (htokens ▸ hnone rfl)
  | cons first others =>
      obtain ⟨rounds, -, hothers⟩ := Leads.firstParameters hnamed htokens hvalues
      refine hothers.trans ((Leads.noItem (hcomma (by simp))).trans ?_)
      simp
      exact .refl

/-! ### Complete statements -/

/-- The state in which some names are known to be constant. -/
def State.knowing (s : State) (constants : List Identifier) : State :=
  { s with constants }

@[simp] theorem State.knowing_constants (constants : List Identifier) :
    (s.knowing constants).constants = constants := rfl

@[simp] theorem State.knowing_tokens (constants : List Identifier) :
    (s.knowing constants).tokens = s.tokens := rfl

@[simp] theorem State.knowing_lastRead (constants : List Identifier) :
    (s.knowing constants).lastRead = s.lastRead := rfl

@[simp] theorem State.past_knowing (constants : List Identifier) :
    (s.knowing constants).past read rest = (s.past read rest).knowing constants := rfl

@[simp] theorem State.knowing_knowing (before constants : List Identifier) :
    (s.knowing before).knowing constants = s.knowing constants := rfl

theorem InFrontOf.knowing {values : List Token} {levels : Nat} (h : InFrontOf values levels s read rest)
    (constants : List Identifier) : InFrontOf values levels (s.knowing constants) read rest :=
  ⟨h.tokens_eq, h.values_eq, h.depth_add, h.named⟩

theorem Runs.boundEnd (binding : Binding) (name : Identifier) (value : Node) (s : State) :
    Runs (boundEnd binding (.identifier binding.kind name) value) s
      (Node.heightOver [.identifier binding.kind name, value] ≤ heightLimit)
      (pure (.over binding.operator [.identifier binding.kind name, value]))
      (s.knowing (binding.declare name s.constants)) := by
  cases binding with
  | constant =>
      have hadd : Leads (addConstant (.identifier .constant name)) s (pure ())
          (s.knowing (name :: s.constants)) := .of_eq fun _ => rfl
      exact ((hadd.runs .refl).andThen (.operation ..)).congr (by simp [Binding.kind])
  | «variable» => exact .operation ..

theorem Runs.functionEnd (name : Identifier) (parameters : List Node) (body : Node) (s : State) :
    Runs (functionEnd (.identifier .function name) parameters body) s
      (Node.heightOver [.identifier .function name, .over .parameters parameters, body] ≤ heightLimit)
      (pure (.over .function [.identifier .function name, .over .parameters parameters, body])) s := by
  refine ((Runs.operation ..).andThen (.operation ..)).congr ?_
  simp only [Node.heightOver, List.map_cons, List.foldr_cons, Node.height_over]
  omega

theorem Leads.assigned {assign : Spanned Token} {target : Identifier} (h : s.tokens = token :: assign :: rest)
    (htoken : token.value = .identifier target) (hnamed : target.spelling ≠ "")
    (hassign : assign.value = .symbol .assign) :
    Leads statement s (assignedRest (.identifier (target.kindOfUse s.constants) target))
      (s.past [token, assign] rest) := by
  have hname : Leads name s (pure target) (s.past [token] (assign :: rest)) := by
    refine (Leads.next h _).trans ?_
    rw [htoken]
    exact .refl
  have hsign : Leads (Parser.expect (.symbol .assign)) (s.past [token] (assign :: rest)) (pure ())
      (s.past [token, assign] rest) := by
    have := Leads.expect (s := s.past [token] (assign :: rest)) rfl hassign pure
    rwa [State.past_past, bind_pure] at this
  have htarget : Leads assignmentTarget s (pure (.identifier (target.kindOfUse s.constants) target))
      (s.past [token, assign] rest) :=
    (hname.failing true).andThen ((Leads.use hnamed _).trans ((hsign.failing true).andThen .refl))
  refine (Leads.peek_some h _).trans ?_
  rw [htoken]
  exact ((htarget.runs .refl).optional.leads trivial).andThen .refl

theorem Leads.bare (hnamed : ∀ token ∈ (valuesOf s.tokens).head?, token.Named)
    (hkeyword : ∀ word, (valuesOf s.tokens).head? ≠ some (.keyword word))
    (hassign : ¬ OpensAssignment (valuesOf s.tokens)) : Leads statement s outerExpression s := by
  cases htokens : s.tokens with
  | nil =>
      refine (Leads.peek _).trans ?_
      rw [htokens]
      exact .refl
  | cons token rest =>
      rw [htokens, valuesOf_cons] at hnamed hkeyword hassign
      refine (Leads.peek_some htokens _).trans ?_
      cases htoken : token.value with
      | identifier target =>
          rw [htoken] at hnamed hassign
          have hsign : Fails (Parser.expect (.symbol .assign)) (s.past [token] rest) fun _ => True := by
            cases rest with
            | nil => exact (Fails.expect_end rfl).mono fun _ _ => trivial
            | cons second rest =>
                refine (Fails.expect rfl ?_).mono fun _ _ => trivial
                intro hsecond
                exact hassign ⟨target, valuesOf rest, by rw [valuesOf_cons, hsecond]⟩
          have hname : Leads name s (pure target) (s.past [token] rest) := by
            refine (Leads.next htokens _).trans ?_
            rw [htoken]
            exact .refl
          have htarget : Fails assignmentTarget s (·.recoverable = true) := by
            refine ((hname.failing true).andThen (Leads.use (hnamed _ rfl) _)).fails ?_
            refine Fails.bind ((hsign.failing true).mono ?_) _
            rintro _ ⟨before, -, rfl⟩
            rfl
          exact (Leads.optional_none htarget fun _ h => h).andThen .refl
      | keyword word => exact absurd (by rw [htoken]; rfl) (hkeyword word)
      | number value => exact .refl
      | symbol mark => exact .refl

/-- The beginning of a function, up to its parameters. -/
theorem Leads.functionHead {name : Identifier} {values : List Token} {levels : Nat}
    (hfront : InFrontOf (.keyword .fnDecl :: .identifier name :: .symbol .openParen :: values) levels s
      read rest) :
    ∃ head after, read = head ++ after ∧ head ≠ [] ∧
      Leads statement s (commaList parameter >>= parametersEnd (.identifier .function name))
        (s.past head (after ++ rest)) ∧
      InFrontOf values levels (s.past head (after ++ rest)) after rest := by
  obtain ⟨keyword, after, rfl, hkeyword, -, htokens, hfront⟩ := hfront.cons
  obtain ⟨token, after, rfl, htoken, hnamed, hnameTokens, hfront⟩ := hfront.cons
  obtain ⟨openParen, after, rfl, hopen, -, hopenTokens, hfront⟩ := hfront.cons
  have hname := (Leads.nameOf .function hnameTokens htoken hnamed).andThen (f := functionRest)
    (Leads.expect hopenTokens hopen _)
  have hhead := (Leads.fn htokens hkeyword).trans hname
  rw [State.past_past, State.past_past] at hhead hfront
  exact ⟨[keyword, token, openParen], after, rfl, by simp, hhead, hfront⟩

/-- The beginning of a function, up to the equals sign. -/
theorem Leads.signature {name : Identifier} {parameters : List Identifier} {values : List Token} {levels : Nat}
    (hfront : InFrontOf (.keyword .fnDecl :: .identifier name :: .symbol .openParen ::
      (parameterTokens parameters ++ .symbol .closeParen :: values)) levels s read rest) :
    ∃ head after, read = head ++ after ∧ head ≠ [] ∧
      Leads statement s
        (bodyRest (.identifier .function name) (parameters.map (.identifier .variable)))
        (s.past head (after ++ rest)) ∧
      InFrontOf values levels (s.past head (after ++ rest)) after rest := by
  obtain ⟨head, after, rfl, -, hhead, hfront⟩ := Leads.functionHead hfront
  obtain ⟨inside, after, rfl, hinside, hfront⟩ := hfront.append
  obtain ⟨closeParen, after, rfl, hclose, -, hcloseTokens, hfront⟩ := hfront.cons
  have hparameters := Leads.allParameters
    (fun name hmem => hinside.named _ (mem_parameterTokens hmem)) hinside.tokens_eq hinside.values_eq
    (by simp [hclose, NamesNone]) (by simp [hclose])
  have hsignature := hhead.trans (hparameters.andThen (f := parametersEnd _)
    (Leads.expect hcloseTokens hclose _))
  rw [State.past_past, State.past_past] at hsignature hfront
  exact ⟨head ++ (inside ++ [closeParen]), after, by simp, by simp, hsignature, hfront⟩

/-- **The parser reads every statement.** -/
theorem readsStatement {statement : Statement} (hfront : InFrontOf statement.tokens nestingLimit s read rest)
    (hclosed : statement.Closed (valuesOf rest)) :
    Runs Parser.statement s
      (statement.nesting ≤ nestingLimit ∧ (statement.tree s.constants).height ≤ heightLimit)
      (pure (statement.tree s.constants))
      ((s.past read rest).knowing (statement.declare s.constants)) := by
  have hheight := statement.value.heightOf_tree s.constants
  simp only [Category.heightOf] at hheight
  cases statement with
  | bound binding name value =>
      obtain ⟨keyword, after, rfl, hkeyword, -, htokens, hfront⟩ := hfront.cons
      obtain ⟨token, after, rfl, htoken, hnamed, hnameTokens, hfront⟩ := hfront.cons
      obtain ⟨assign, after, rfl, hassign, -, hassignTokens, hfront⟩ := hfront.cons
      have hvalue := (Reads.complete (reads value) hfront hclosed (by simp [Category.Joins])).committed
      have hdeclared : Runs (declaration binding.kind) _ _ _ _ :=
        ((Leads.nameOf _ hnameTokens htoken hnamed).andThen (Leads.expect hassignTokens hassign _)).runs
          (hvalue.andThen .refl)
      have hbound := hdeclared.andThen (f := fun declared => boundEnd binding declared.1 declared.2)
        (.boundEnd binding name _ _)
      refine (Leads.binding binding htokens hkeyword).runs ((hbound.congr ?_).moved (by simp; rfl))
      simp only [State.past_constants, Statement.tree, Node.height_over, Node.heightOver_pair,
        Node.height_identifier, Statement.nesting, Statement.value, and_true] at hheight ⊢
      omega
  | function name parameters body =>
      obtain ⟨head, after, rfl, -, hhead, hfront⟩ := Leads.signature hfront
      obtain ⟨assign, after, rfl, hassign, -, hassignTokens, hfront⟩ := hfront.cons
      have hbody := (Reads.complete (reads body) hfront hclosed (by simp [Category.Joins])).committed
      have hfunction := hbody.andThen (f := functionEnd _ _)
        (.functionEnd name (parameters.map (.identifier .variable)) _ _)
      refine hhead.runs ((Leads.expect hassignTokens hassign _).runs ((hfunction.congr ?_).moved (by simp; rfl)))
      simp only [State.past_constants, Statement.tree, Node.height_over, Node.heightOver, List.map_cons,
        List.map_nil, List.foldr_cons, List.foldr_nil, Node.height_identifier, Statement.nesting, Statement.value]
        at hheight ⊢
      omega
  | assigned target value =>
      obtain ⟨token, after, rfl, htoken, hnamed, htokens, hfront⟩ := hfront.cons
      obtain ⟨assign, after, rfl, hassign, -, hassignTokens, hfront⟩ := hfront.cons
      have hvalue := (Reads.complete (reads value) hfront hclosed (by simp [Category.Joins])).committed
      rw [State.past_past] at hvalue
      have hassigned := hvalue.andThen
        (f := fun value => operation .assign [.identifier (target.kindOfUse s.constants) target, value])
        (.operation ..)
      refine (Leads.assigned htokens htoken hnamed hassign).runs ((hassigned.congr ?_).moved (by simp; rfl))
      simp only [State.past_constants, Statement.tree, Node.height_over, Node.heightOver_pair,
        Node.height_identifier, Statement.nesting, Statement.value] at hheight ⊢
      omega
  | bare value =>
      obtain ⟨token, others, hhead, hstart⟩ := value.tokens_eq_cons
      have hvalues : valuesOf s.tokens = value.tokens ++ valuesOf rest := by
        rw [hfront.tokens_eq, valuesOf_append, hfront.values_eq]
        rfl
      have hvalue := Reads.complete (reads value) hfront (fun token hhead h => hclosed token hhead (.inl h))
        (by simp [Category.Joins])
      have hfirst : (valuesOf s.tokens).head? = some token := by rw [hvalues, hhead]; rfl
      refine (Leads.bare ?_ ?_ ?_).runs (hvalue.congr ?_)
      · rw [hfirst]
        intro found hfound
        rw [Option.mem_some_iff] at hfound
        rw [← hfound]
        exact hfront.named token (by simp [Statement.tokens, hhead])
      · rintro word hword
        rw [hfirst, Option.some.injEq] at hword
        rw [hword] at hstart
        exact hstart
      · rw [hvalues]
        exact Statement.not_opensAssignment hclosed
      · rw [show value.height = _ from hheight.symm]
        rfl

/-! ### Statements that get stuck -/

theorem Leads.bareStuck {next : Option Token} {wanted : Wanted} {values : List Token} {nesting height : Nat}
    (value : Stuck next wanted .expression values nesting height)
    (hkeyword : values = [] → ∀ word, next ≠ some (.keyword word))
    (hassign : ∀ target, values = [.identifier target] → next ≠ some (.symbol .assign))
    (hfront : InFrontOf values nestingLimit s read rest) (hrest : (valuesOf rest).head? = next) :
    Leads statement s outerExpression s := by
  have hvalues : valuesOf s.tokens = values ++ valuesOf rest := by
    rw [hfront.tokens_eq, valuesOf_append, hfront.values_eq]
  cases values with
  | nil =>
      rw [List.nil_append] at hvalues
      have hstart := value.startsNone rfl
      refine .bare ?_ ?_ ?_
      · rw [hvalues, hrest]
        intro token htoken
        cases token with
        | identifier name => exact absurd trivial (hstart _ htoken)
        | _ => trivial
      · rw [hvalues, hrest]
        exact hkeyword rfl
      · rintro ⟨target, more, heq⟩
        refine absurd trivial (hstart (.identifier target) ?_)
        rw [← hrest, ← hvalues, heq, List.head?_cons]
  | cons first values =>
      have hinside := value.inside
      have hhead : (valuesOf s.tokens).head? = some first := by rw [hvalues]; rfl
      refine .bare ?_ ?_ ?_
      · rw [hhead]
        rintro token htoken
        rw [Option.mem_some_iff] at htoken
        exact hfront.named token (by simp [htoken])
      · rintro word hword
        rw [hhead, Option.some.injEq] at hword
        have hfirst := hinside first (List.mem_cons_self ..)
        rwa [hword] at hfirst
      · rintro ⟨target, more, heq⟩
        rw [hvalues, List.cons_append, List.cons.injEq] at heq
        obtain ⟨rfl, heq⟩ := heq
        cases values with
        | nil => exact hassign target rfl (by rw [← hrest, ← List.nil_append (valuesOf rest), heq]; rfl)
        | cons second values =>
            rw [List.cons_append, List.cons.injEq] at heq
            have hsecond := hinside second (by simp)
            rwa [heq.1] at hsecond

/-- Where some tokens get stuck in a statement, the parser fails for that, always under the same
condition. -/
def StatementHalts (next : Option Token) (wanted : Wanted) (values : List Token) : Prop :=
  ∃ fits : Prop, ∀ {s : State} {read rest : List (Spanned Token)},
    InFrontOf values nestingLimit s read rest → (valuesOf rest).head? = next →
      ∃ failure, failure.error = (lacking wanted s read rest).error ∧ Stops statement s fits failure

/-- **Where some tokens get stuck in a statement, the parser stops.** -/
theorem stopsStatement {next : Option Token} {wanted : Wanted} {values : List Token}
    (h : StatementStuck next wanted values) : StatementHalts next wanted values := by
  cases h with
  | beforeBound binding hnext =>
      refine ⟨True, fun {s read rest} hfront hrest => ⟨_, rfl, ?_⟩⟩
      obtain ⟨keyword, after, rfl, hkeyword, -, htokens, hfront⟩ := hfront.cons
      obtain rfl := hfront.nil
      subst hrest
      exact (Leads.binding binding htokens hkeyword).stops
        (((Stops.nameOf s [keyword] (by simp) hnext).bind _).bind _)
  | afterBound binding name hnext =>
      refine ⟨True, fun {s read rest} hfront hrest => ⟨_, rfl, ?_⟩⟩
      obtain ⟨keyword, after, rfl, hkeyword, -, htokens, hfront⟩ := hfront.cons
      obtain ⟨token, after, rfl, htoken, hnamed, hnameTokens, hfront⟩ := hfront.cons
      obtain rfl := hfront.nil
      subst hrest
      have hsign := Stops.expect s [keyword, token] (by simp) hnext
      have hdeclared : Stops (declaration binding.kind) _ _ _ :=
        ((Leads.nameOf _ hnameTokens htoken hnamed).andThen .refl).stops (hsign.bind _)
      exact (Leads.binding binding htokens hkeyword).stops (hdeclared.bind _)
  | inBound binding name value =>
      rename_i nesting height
      refine ⟨nesting ≤ nestingLimit ∧ height ≤ heightLimit, fun {s read rest} hfront hrest => ?_⟩
      obtain ⟨keyword, after, rfl, hkeyword, -, htokens, hfront⟩ := hfront.cons
      obtain ⟨token, after, rfl, htoken, hnamed, hnameTokens, hfront⟩ := hfront.cons
      obtain ⟨assign, after, rfl, hassign, -, hassignTokens, hfront⟩ := hfront.cons
      have hvalue := (stops value hfront hrest nofun).committed
      have hdeclared : Stops (declaration binding.kind) _ _ _ :=
        ((Leads.nameOf _ hnameTokens htoken hnamed).andThen (Leads.expect hassignTokens hassign _)).stops
          (hvalue.bind _)
      have hstops := (Leads.binding binding htokens hkeyword).stops (hdeclared.bind _)
      rw [State.past_past, State.past_past, lacking_committed _ (by simp)] at hstops
      exact ⟨_, rfl, hstops⟩
  | beforeFunction hnext =>
      refine ⟨True, fun {s read rest} hfront hrest => ⟨_, rfl, ?_⟩⟩
      obtain ⟨keyword, after, rfl, hkeyword, -, htokens, hfront⟩ := hfront.cons
      obtain rfl := hfront.nil
      subst hrest
      exact (Leads.fn htokens hkeyword).stops ((Stops.nameOf s [keyword] (by simp) hnext).bind _)
  | afterFunction name hnext =>
      refine ⟨True, fun {s read rest} hfront hrest => ⟨_, rfl, ?_⟩⟩
      obtain ⟨keyword, after, rfl, hkeyword, -, htokens, hfront⟩ := hfront.cons
      obtain ⟨token, after, rfl, htoken, hnamed, hnameTokens, hfront⟩ := hfront.cons
      obtain rfl := hfront.nil
      subst hrest
      have hopen := Stops.expect s [keyword, token] (by simp) hnext
      exact (Leads.fn htokens hkeyword).stops
        (((Leads.nameOf _ hnameTokens htoken hnamed).andThen .refl).stops (hopen.bind _))
  | afterParameters name parameters hnone hcomma hclose =>
      refine ⟨True, fun {s read rest} hfront hrest => ⟨_, rfl, ?_⟩⟩
      obtain ⟨head, after, rfl, hne, hhead, hfront⟩ := Leads.functionHead hfront
      subst hrest
      have hparameters := Leads.allParameters
        (fun name hmem => hfront.named _ (mem_parameterTokens hmem)) hfront.tokens_eq hfront.values_eq
        hnone hcomma
      rw [State.past_past] at hparameters
      have hend := Stops.expect s (head ++ after) (by simp [hne]) hclose
      exact (hhead.trans (hparameters.andThen (f := parametersEnd _) .refl)).stops (hend.bind _)
  | beforeParameter name first others hnext =>
      refine ⟨True, fun {s read rest} hfront hrest => ?_⟩
      obtain ⟨head, after, rfl, hne, hhead, hfront⟩ := Leads.functionHead hfront
      obtain ⟨inside, after, rfl, hinside, hfront⟩ := hfront.append
      obtain ⟨comma, after, rfl, hcomma, -, hcommaTokens, hfront⟩ := hfront.cons
      obtain rfl := hfront.nil
      subst hrest
      obtain ⟨rounds, hrounds, hparameters⟩ := Leads.firstParameters
        (fun name hmem => hinside.named _ (mem_parameterTokens hmem)) hinside.tokens_eq hinside.values_eq
      rw [State.past_past] at hparameters
      have hname : Stops parameter ((s.past (head ++ inside) (comma :: rest)).past [comma] rest) True
          { lacking .name s (head ++ inside ++ [comma]) rest with recoverable := true } := by
        refine (((Fails.nameOf hnext).failing true).mono ?_).stops
        rintro _ ⟨before, rfl, rfl⟩
        simp [lacking]
      cases rounds with
      | nil => simp at hrounds
      | cons round rounds =>
          have hstops := hparameters.stops (.nextItem round rfl hcomma hname)
          refine ⟨_, ?_, hhead.stops (hstops.bind (parametersEnd _))⟩
          rw [← List.append_assoc]
  | beforeBody name parameters hnext =>
      refine ⟨True, fun {s read rest} hfront hrest => ⟨_, rfl, ?_⟩⟩
      obtain ⟨head, after, rfl, hne, hhead, hfront⟩ := Leads.signature hfront
      obtain rfl := hfront.nil
      subst hrest
      rw [List.append_nil]
      exact hhead.stops ((Stops.expect s head hne hnext).bind _)
  | inBody name parameters body =>
      rename_i nesting height
      refine ⟨nesting ≤ nestingLimit ∧ height ≤ heightLimit, fun {s read rest} hfront hrest => ?_⟩
      obtain ⟨head, after, rfl, hne, hhead, hfront⟩ := Leads.signature hfront
      obtain ⟨assign, after, rfl, hassign, -, hassignTokens, hfront⟩ := hfront.cons
      have hbody := (stops body hfront hrest nofun).committed
      have hstops := hhead.stops ((Leads.expect hassignTokens hassign _).stops (hbody.bind _))
      rw [State.past_past, lacking_committed _ (by simp), List.append_assoc] at hstops
      exact ⟨_, rfl, hstops⟩
  | inAssigned target value =>
      rename_i nesting height
      refine ⟨nesting ≤ nestingLimit ∧ height ≤ heightLimit, fun {s read rest} hfront hrest => ?_⟩
      obtain ⟨token, after, rfl, htoken, hnamed, htokens, hfront⟩ := hfront.cons
      obtain ⟨assign, after, rfl, hassign, -, hassignTokens, hfront⟩ := hfront.cons
      have hvalue := (stops value hfront hrest nofun).committed
      rw [State.past_past, lacking_committed _ (by simp)] at hvalue
      exact ⟨_, rfl, (Leads.assigned htokens htoken hnamed hassign).stops (hvalue.bind _)⟩
  | inBare value hkeyword hassign =>
      rename_i nesting height
      refine ⟨nesting ≤ nestingLimit ∧ height ≤ heightLimit, fun {s read rest} hfront hrest => ?_⟩
      exact ⟨_, rfl, (Leads.bareStuck value hkeyword hassign hfront hrest).stops (stops value hfront hrest nofun)⟩

end FormulaCompiler.Parser
