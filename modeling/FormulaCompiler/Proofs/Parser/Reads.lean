import FormulaCompiler.Proofs.Parser.Rules

/-!
# The parser reads phrases

Main statement: in front of a phrase that ends where it does (`Phrase.Closed`), the rule of the phrase's
category reads exactly the phrase and gives its tree, or overruns a limit if the phrase does (`reads`).
Where a category has a loop, the phrase may still be the left part of a longer one, which is what the
induction needs of the part before the last operator.
-/

namespace FormulaCompiler.Parser

variable {s : State} {token : Spanned Token} {rest : List (Spanned Token)}

/-! ### In front of a phrase -/

/-- `s` stands in front of some tokens, with `levels` levels of nesting left; located, they are `read`, and
`rest` comes after them. -/
structure InFrontOf (tokens : List Token) (levels : Nat) (s : State) (read rest : List (Spanned Token)) :
    Prop where
  tokens_eq : s.tokens = read ++ rest
  values_eq : valuesOf read = tokens
  depth_add : s.depth + levels = nestingLimit
  named : ∀ token ∈ tokens, token.Named

namespace InFrontOf

variable {value : Token} {first second : List Token} {levels : Nat} {read : List (Spanned Token)}

theorem append (h : InFrontOf (first ++ second) levels s read rest) :
    ∃ before after, read = before ++ after ∧ InFrontOf first levels s before (after ++ rest) ∧
      InFrontOf second levels (s.past before (after ++ rest)) after rest := by
  obtain ⟨before, after, rfl, hfirst, hsecond⟩ := valuesOf_eq_append.1 h.values_eq
  refine ⟨before, after, rfl, ?_, ?_⟩
  · exact ⟨by rw [h.tokens_eq, List.append_assoc], hfirst, h.depth_add,
      fun token hmem => h.named token (List.mem_append_left _ hmem)⟩
  · exact ⟨rfl, hsecond, h.depth_add, fun token hmem => h.named token (List.mem_append_right _ hmem)⟩

theorem cons (h : InFrontOf (value :: second) levels s read rest) :
    ∃ token after, read = token :: after ∧ token.value = value ∧ value.Named ∧
      s.tokens = token :: (after ++ rest) ∧
      InFrontOf second levels (s.past [token] (after ++ rest)) after rest := by
  obtain ⟨token, after, rfl, hvalue, hsecond⟩ := valuesOf_eq_cons.1 h.values_eq
  exact ⟨token, after, rfl, hvalue, h.named value (List.mem_cons_self ..), h.tokens_eq,
    rfl, hsecond, h.depth_add, fun token hmem => h.named token (List.mem_cons_of_mem _ hmem)⟩

theorem nil (h : InFrontOf [] levels s read rest) : read = [] := List.map_eq_nil_iff.1 h.values_eq

theorem deeper (h : InFrontOf first (levels + 1) s read rest) :
    InFrontOf first levels s.deeper read rest :=
  ⟨h.tokens_eq, h.values_eq, by have := h.depth_add; simp only [State.deeper]; omega, h.named⟩

end InFrontOf

/-- In front of a phrase that ends where it does, the rule of its category comes to the end of it. -/
def Reads {c : Category} (phrase : Phrase c) : Prop :=
  ∀ {levels : Nat} {s : State} {read rest : List (Spanned Token)},
    InFrontOf phrase.tokens levels s read rest → phrase.Closed (valuesOf rest) →
      ∃ rounds, rest.length ≤ rounds.length ∧
        Runs (ruleOf c (innerRules levels)) s (phrase.nesting ≤ levels ∧ phrase.height ≤ heightLimit)
          (resume c (innerRules levels) rounds (phrase.tree s.constants)) (s.past read rest)

theorem Leads.resume {c : Category} {inner : Inner} {rounds : List (Spanned Token)} {value : c.Value}
    (h : ∀ token, (valuesOf s.tokens).head? = some token → ¬ c.Joins token) :
    Leads (resume c inner rounds value) s (pure value) s := by
  cases c with
  | product => exact .noOperand fun token hhead => productOperator?_eq_none (h token hhead)
  | sum => exact .noOperand fun token hhead => sumOperator?_eq_none (h token hhead)
  | arguments =>
      have hcomma : (valuesOf s.tokens).head? ≠ some (.symbol .comma) := fun hhead => h _ hhead rfl
      have : Leads (moreItems (expression inner) rounds value.reverse) s (pure value.reverse.reverse) s :=
        .noItem hcomma
      rwa [List.reverse_reverse] at this
  | _ => exact .of_eq fun _ => rfl

namespace Reads

variable {c : Category} {phrase : Phrase c} {levels : Nat} {read : List (Spanned Token)}

/-- A phrase that nothing goes on with is read to its end. -/
theorem complete (h : Reads phrase) (hfront : InFrontOf phrase.tokens levels s read rest)
    (hclosed : phrase.Closed (valuesOf rest))
    (hjoins : ∀ token, (valuesOf rest).head? = some token → ¬ c.Joins token) :
    Runs (ruleOf c (innerRules levels)) s (phrase.nesting ≤ levels ∧ phrase.height ≤ heightLimit)
      (pure (phrase.tree s.constants)) (s.past read rest) := by
  obtain ⟨rounds, -, hruns⟩ := h hfront hclosed
  exact (hruns.trans (Leads.runs (.resume hjoins) .refl)).congr (by simp)

/-- One level deeper, a phrase counts one more level. The rule that is run there may be any that reads what
the rule of the category reads. -/
theorem deeper (h : Reads phrase) (rule : Inner → Rule c.Value)
    (hrule : ∀ {k : Nat} {t u : State} {fits : Prop} {value : c.Value},
      Runs (ruleOf c (innerRules k)) t fits (pure value) u →
        Runs (rule (innerRules (k + 1))) t fits (pure value) u)
    (hfront : InFrontOf phrase.tokens levels s read rest) (hclosed : phrase.Closed (valuesOf rest))
    (hjoins : ∀ token, (valuesOf rest).head? = some token → ¬ c.Joins token) :
    Runs (deeper (rule (innerRules levels))) s (phrase.nesting + 1 ≤ levels ∧ phrase.height ≤ heightLimit)
      (pure (phrase.tree s.constants)) (s.past read rest) := by
  cases levels with
  | zero => exact ⟨fun hfits => by omega, fun _ => .deeper hfront.depth_add _⟩
  | succ k =>
      have hdepth : s.depth < nestingLimit := by have := hfront.depth_add; omega
      exact (Runs.deeper hdepth (hrule (h.complete hfront.deeper hclosed hjoins))).congr (by omega)

end Reads

/-- One more operand of a chain, after a left part that was read with a round left for it. -/
private theorem chain {rule operand : Rule Node} {operator? : Token → Option Operator} {operator : Operator}
    {left right : Node} {fits fits' : Prop} {t u : State} {after : List (Spanned Token)}
    (hleft : ∃ rounds, (token :: after).length ≤ rounds.length ∧
      Runs rule s fits (moreOperands operator? operand rounds left) t)
    (htokens : t.tokens = token :: after) (hoperator : operator? token.value = some operator)
    (hright : Runs operand (t.past [token] after) fits' (pure right) u) :
    ∃ rounds, after.length ≤ rounds.length ∧
      Runs rule s (fits ∧ fits' ∧ Node.heightOver [left, right] ≤ heightLimit)
        (moreOperands operator? operand rounds (Node.over operator [left, right])) u := by
  obtain ⟨rounds, hrounds, hleft⟩ := hleft
  cases rounds with
  | nil => simp at hrounds
  | cons round rounds =>
      refine ⟨rounds, by simpa using hrounds, hleft.trans (.nextOperand round htokens hoperator hright)⟩

/-- Without arguments, the closing parenthesis comes at once. -/
theorem Runs.noArguments {levels : Nat} (hdepth : s.depth + levels = nestingLimit)
    (h : s.tokens = token :: rest) (hstart : ¬ token.value.StartsPhrase) :
    Runs (Parser.deeper (commaList (innerRules levels).expression)) s (1 ≤ levels) (pure []) s := by
  cases levels with
  | zero => exact ⟨fun hfits => by omega, fun _ => .deeper hdepth _⟩
  | succ k =>
      have hnone : Leads (Parser.optional (expression (innerRules k))) s.deeper (pure none) s.deeper := by
        refine .optional_none (Fails.noPhrase (c := .expression) (by simp) h hstart) ?_
        rintro _ rfl
        rfl
      have hruns : Runs (commaList (innerRules (k + 1)).expression) s.deeper True (pure [])
          (s.deeper.past [] (token :: rest)) := by
        rw [State.past_nil (s := s.deeper) h]
        refine (hnone.bind _).runs ?_
        rw [pure_bind]
        exact .refl
      have hlt : s.depth < nestingLimit := by omega
      exact ((Runs.deeper hlt hruns).congr (by simp)).moved (State.past_nil h)

/-- **The rule of a category reads every phrase of the category.** -/
theorem reads {c : Category} (phrase : Phrase c) : Reads phrase := by
  induction phrase with
  | number value =>
      intro levels s read rest hfront hclosed
      obtain ⟨token, after, rfl, htoken, -, htokens, hfront⟩ := hfront.cons
      obtain rfl := hfront.nil
      refine ⟨rest, Nat.le_refl _, (Leads.next htokens _).runs ?_⟩
      rw [htoken]
      exact Runs.refl.congr (by simp [Phrase.nesting, Phrase.height, heightLimit])
  | name used =>
      intro levels s read rest hfront hclosed
      obtain ⟨token, after, rfl, htoken, hnamed, htokens, hfront⟩ := hfront.cons
      obtain rfl := hfront.nil
      refine ⟨rest, Nat.le_refl _, (Leads.reference htokens htoken hnamed ?_).runs ?_⟩
      · exact fun hparen => hclosed _ hparen rfl
      · exact Runs.refl.congr (by simp [Phrase.nesting, Phrase.height, heightLimit])
  | bareCall callee =>
      intro levels s read rest hfront hclosed
      obtain ⟨token, after, rfl, htoken, hnamed, htokens, hfront⟩ := hfront.cons
      obtain ⟨openParen, after, rfl, hopen, -, -, hfront⟩ := hfront.cons
      have hdepth := hfront.depth_add
      obtain ⟨closeParen, after, rfl, hclose, -, hcloseTokens, hfront⟩ := hfront.cons
      obtain rfl := hfront.nil
      have harguments := Runs.noArguments hdepth hcloseTokens (by rw [hclose]; exact id)
      have hcall := harguments.andThen (Runs.callEnd callee [] hcloseTokens hclose)
      refine ⟨rest, Nat.le_refl _, (Leads.callee htokens htoken hnamed hopen).runs ?_⟩
      refine (hcall.congr ?_).moved (by simp)
      simp [Phrase.nesting, Phrase.height]
  | call callee arguments ih =>
      intro levels s read rest hfront hclosed
      obtain ⟨token, after, rfl, htoken, hnamed, htokens, hfront⟩ := hfront.cons
      obtain ⟨openParen, after, rfl, hopen, -, -, hfront⟩ := hfront.cons
      obtain ⟨inside, after, rfl, hinside, hfront⟩ := hfront.append
      obtain ⟨closeParen, after, rfl, hclose, -, hcloseTokens, hfront⟩ := hfront.cons
      obtain rfl := hfront.nil
      have harguments := ih.deeper (fun inner => commaList inner.expression) id hinside
        (by simpa [hclose] using arguments.closed_symbol (by decide) _) (by simp [hclose, Category.Joins])
      have hcall := harguments.andThen (Runs.callEnd callee _ hcloseTokens hclose)
      refine ⟨rest, Nat.le_refl _, (Leads.callee htokens htoken hnamed hopen).runs ?_⟩
      refine (hcall.congr ?_).moved (by simp)
      have := arguments.heightOf_tree s.constants
      simp only [Category.heightOf] at this
      simp only [State.past_constants, this, Phrase.nesting, Phrase.height]
      omega
  | enclosed inner ih =>
      intro levels s read rest hfront hclosed
      obtain ⟨openParen, after, rfl, hopen, -, htokens, hfront⟩ := hfront.cons
      obtain ⟨inside, after, rfl, hinside, hfront⟩ := hfront.append
      obtain ⟨closeParen, after, rfl, hclose, -, hcloseTokens, hfront⟩ := hfront.cons
      obtain rfl := hfront.nil
      have hinner := ih.deeper (fun inner => committed inner.expression) Runs.committed hinside
        (by simpa [hclose] using inner.closed_symbol (by decide) _) (by simp [Category.Joins])
      have hend := hinner.andThen (Runs.enclosedEnd _ hcloseTokens hclose)
      refine ⟨rest, Nat.le_refl _, (Leads.openParen htokens hopen).runs ?_⟩
      refine (hend.congr ?_).moved (by simp)
      simp [Phrase.nesting, Phrase.height]
  | ofAtom atom ih =>
      intro levels s read rest hfront hclosed
      obtain ⟨rounds, hrounds, hatom⟩ := ih hfront hclosed
      refine ⟨rounds, hrounds, (Leads.unsigned ?_).runs hatom⟩
      rw [hfront.tokens_eq, valuesOf_append, hfront.values_eq]
      exact atom.head?_ne_minus _
  | negated operand ih =>
      intro levels s read rest hfront hclosed
      obtain ⟨minus, after, rfl, hminus, -, htokens, hfront⟩ := hfront.cons
      have hoperand := ih.deeper (fun inner => committed inner.signed) Runs.committed hfront hclosed
        (by simp [Category.Joins])
      have hnegated := hoperand.andThen (f := fun operand => operation .negate [operand]) (.operation ..)
      refine ⟨rest, Nat.le_refl _, (Leads.minus htokens hminus).runs ?_⟩
      refine (hnegated.congr ?_).moved (by simp)
      have := operand.heightOf_tree s.constants
      simp only [Category.heightOf] at this
      simp [Phrase.nesting, Phrase.height, Node.heightOver, this]
      omega
  | ofSigned base ih =>
      intro levels s read rest hfront hclosed
      have hbase := ih.complete hfront (fun token hhead h => hclosed token hhead (.inl h))
        (by simp [Category.Joins])
      have hend := hbase.andThen (f := powerRest (innerRules levels))
        ((Leads.noCaret fun hcaret => hclosed _ hcaret (.inr rfl)).runs .refl)
      exact ⟨rest, Nat.le_refl _, hend.congr (by simp [Phrase.nesting, Phrase.height])⟩
  | raised base exponent ihBase ihExponent =>
      intro levels s read rest hfront hclosed
      obtain ⟨readBase, after, rfl, hbaseFront, hfront⟩ := hfront.append
      obtain ⟨caret, readExponent, rfl, hcaret, -, htokens, hfront⟩ := hfront.cons
      have hbase := ihBase.complete hbaseFront
        (by simpa [hcaret] using base.closed_symbol (by decide) _) (by simp [Category.Joins])
      have hexponent := ihExponent.deeper (fun inner => committed inner.power) Runs.committed hfront
        hclosed (by simp [Category.Joins])
      have hraised := hexponent.andThen
        (f := fun exponent => operation .power [base.tree s.constants, exponent]) (.operation ..)
      have hpower := hbase.andThen (f := powerRest (innerRules levels))
        ((Leads.caret htokens hcaret).runs hraised)
      refine ⟨rest, Nat.le_refl _, (hpower.congr ?_).moved (by simp)⟩
      have hbaseHeight := base.heightOf_tree s.constants
      have hexponentHeight := exponent.heightOf_tree s.constants
      simp only [Category.heightOf] at hbaseHeight hexponentHeight
      simp only [State.past_constants, Node.heightOver_pair, hbaseHeight, hexponentHeight,
        Phrase.nesting, Phrase.height]
      omega
  | ofPower first ih =>
      intro levels s read rest hfront hclosed
      have hfirst := ih.complete hfront hclosed (by simp [Category.Joins])
      have hloop := hfirst.andThen (f := operandsRest productOperator? (power (innerRules levels)))
        ((Leads.tokensLeft _).runs .refl)
      exact ⟨rest, Nat.le_refl _, hloop.congr (by simp [Phrase.nesting, Phrase.height])⟩
  | multiplied left mark right ihLeft ihRight =>
      intro levels s read rest hfront hclosed
      obtain ⟨readLeft, after, rfl, hleftFront, hfront⟩ := hfront.append
      obtain ⟨token, readRight, rfl, htoken, -, htokens, hfront⟩ := hfront.cons
      have hleft := ihLeft hleftFront
        (by simpa [htoken] using left.closed_symbol (by cases mark <;> decide) _)
      have hright := ihRight.complete hfront hclosed (by simp [Category.Joins])
      obtain ⟨rounds, hrounds, hruns⟩ := chain hleft htokens (htoken ▸ productOperator?_symbol mark) hright
      refine ⟨rounds, by simp at hrounds; omega, (hruns.congr ?_).moved (by simp)⟩
      have hleftHeight := left.heightOf_tree s.constants
      have hrightHeight := right.heightOf_tree s.constants
      simp only [Category.heightOf] at hleftHeight hrightHeight
      simp only [State.past_constants, Node.heightOver_pair, hleftHeight, hrightHeight,
        Phrase.nesting, Phrase.height]
      omega
  | ofProduct first ih =>
      intro levels s read rest hfront hclosed
      have hfirst := ih.complete hfront (fun token hhead h => hclosed token hhead (.inl h))
        (fun token hhead h => hclosed token hhead (.inr h))
      have hloop := hfirst.andThen (f := operandsRest sumOperator? (product (innerRules levels)))
        ((Leads.tokensLeft _).runs .refl)
      exact ⟨rest, Nat.le_refl _, hloop.congr (by simp [Phrase.nesting, Phrase.height])⟩
  | added left mark right ihLeft ihRight =>
      intro levels s read rest hfront hclosed
      obtain ⟨readLeft, after, rfl, hleftFront, hfront⟩ := hfront.append
      obtain ⟨token, readRight, rfl, htoken, -, htokens, hfront⟩ := hfront.cons
      have hleft := ihLeft hleftFront
        (by simpa [htoken] using left.closed_symbol (by cases mark <;> decide) _)
      have hright := ihRight.complete hfront (fun token hhead h => hclosed token hhead (.inl h))
        (fun token hhead h => hclosed token hhead (.inr h))
      obtain ⟨rounds, hrounds, hruns⟩ := chain hleft htokens (htoken ▸ sumOperator?_symbol mark) hright
      refine ⟨rounds, by simp at hrounds; omega, (hruns.congr ?_).moved (by simp)⟩
      have hleftHeight := left.heightOf_tree s.constants
      have hrightHeight := right.heightOf_tree s.constants
      simp only [Category.heightOf] at hleftHeight hrightHeight
      simp only [State.past_constants, Node.heightOver_pair, hleftHeight, hrightHeight,
        Phrase.nesting, Phrase.height]
      omega
  | ofSum sum ih =>
      intro levels s read rest hfront hclosed
      have hsum := ih.complete hfront (fun token hhead h => hclosed token hhead (.inl h))
        (fun token hhead h => hclosed token hhead (.inr (.inl h)))
      have hend := hsum.andThen (f := expressionRest (innerRules levels))
        ((Leads.noComparison fun token hhead h => hclosed token hhead (.inr (.inr h))).runs .refl)
      exact ⟨rest, Nat.le_refl _, hend.congr (by simp [Phrase.nesting, Phrase.height])⟩
  | compared left mark right ihLeft ihRight =>
      intro levels s read rest hfront hclosed
      obtain ⟨readLeft, after, rfl, hleftFront, hfront⟩ := hfront.append
      obtain ⟨token, readRight, rfl, htoken, -, htokens, hfront⟩ := hfront.cons
      have hleft := ihLeft.complete hleftFront
        (by simpa [htoken] using left.closed_symbol (by cases mark <;> decide) _)
        (by simpa [htoken, Category.Joins] using mark.not_marks_sum)
      have hright := ihRight.complete hfront (fun token hhead h => hclosed token hhead (.inl h))
        (fun token hhead h => hclosed token hhead (.inr h))
      have hcompared := hright.committed.andThen
        (f := fun right => operation mark.operator [left.tree s.constants, right]) (.operation ..)
      have hexpression := hleft.andThen (f := expressionRest (innerRules levels))
        ((Leads.comparison htokens htoken).runs hcompared)
      refine ⟨rest, Nat.le_refl _, (hexpression.congr ?_).moved (by simp)⟩
      have hleftHeight := left.heightOf_tree s.constants
      have hrightHeight := right.heightOf_tree s.constants
      simp only [Category.heightOf] at hleftHeight hrightHeight
      simp only [State.past_constants, Node.heightOver_pair, hleftHeight, hrightHeight,
        Phrase.nesting, Phrase.height]
      omega
  | argument value ih =>
      intro levels s read rest hfront hclosed
      have hvalue := ih.complete hfront hclosed (by simp [Category.Joins])
      have hloop := hvalue.optional.andThen (f := itemsRest (expression (innerRules levels)))
        ((Leads.tokensLeft _).runs .refl)
      exact ⟨rest, Nat.le_refl _, hloop.congr (by simp [Phrase.nesting, Phrase.height])⟩
  | furtherArgument before value ihBefore ihValue =>
      intro levels s read rest hfront hclosed
      obtain ⟨readBefore, after, rfl, hbeforeFront, hfront⟩ := hfront.append
      obtain ⟨token, readValue, rfl, htoken, -, htokens, hfront⟩ := hfront.cons
      obtain ⟨rounds, hrounds, hbefore⟩ := ihBefore hbeforeFront
        (by simpa [htoken] using before.closed_symbol (by decide) _)
      have hvalue := ihValue.complete hfront hclosed (by simp [Category.Joins])
      cases rounds with
      | nil => simp at hrounds
      | cons round rounds =>
          have hruns := hbefore.trans (.nextItem round htokens htoken hvalue)
          simp only [Phrase.tree, resume, List.reverse_append, List.reverse_cons, List.reverse_nil,
            List.nil_append, List.cons_append]
          refine ⟨rounds, by simp at hrounds; omega, (hruns.congr ?_).moved (by simp)⟩
          simp only [Phrase.nesting, Phrase.height]
          omega

end FormulaCompiler.Parser
