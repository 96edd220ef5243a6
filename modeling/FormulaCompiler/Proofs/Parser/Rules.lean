import FormulaCompiler.Parser.Grammar
import FormulaCompiler.Proofs.Parser.Run

/-!
# Rules and the next token

What each rule of the grammar does with the tokens in front of it, one lemma for every choice that a rule
makes. The rules of products, sums and arguments come to a loop that looks for another operand; `resume`
names that loop, and for the other categories nothing is left to do.
-/

namespace FormulaCompiler

/-- Located tokens without their places. -/
def valuesOf (tokens : List (Spanned Token)) : List Token := tokens.map (·.value)

@[simp] theorem valuesOf_append (first second : List (Spanned Token)) :
    valuesOf (first ++ second) = valuesOf first ++ valuesOf second := List.map_append

@[simp] theorem valuesOf_cons (token : Spanned Token) (tokens : List (Spanned Token)) :
    valuesOf (token :: tokens) = token.value :: valuesOf tokens := rfl

@[simp] theorem valuesOf_nil : valuesOf [] = [] := rfl

@[simp] theorem head?_valuesOf (tokens : List (Spanned Token)) :
    (valuesOf tokens).head? = tokens.head?.map (·.value) := List.head?_map

theorem valuesOf_eq_append {tokens : List (Spanned Token)} {first second : List Token} :
    valuesOf tokens = first ++ second ↔
      ∃ read rest, tokens = read ++ rest ∧ valuesOf read = first ∧ valuesOf rest = second :=
  List.map_eq_append_iff

theorem valuesOf_eq_cons {tokens : List (Spanned Token)} {value : Token} {values : List Token} :
    valuesOf tokens = value :: values ↔
      ∃ token rest, tokens = token :: rest ∧ token.value = value ∧ valuesOf rest = values :=
  List.map_eq_cons_iff

theorem exists_of_head?_valuesOf {tokens : List (Spanned Token)} {value : Token}
    (h : (valuesOf tokens).head? = some value) :
    ∃ token rest, tokens = token :: rest ∧ token.value = value := by
  obtain ⟨values, hvalues⟩ := List.head?_eq_some_iff.1 h
  obtain ⟨token, rest, htokens, hvalue, -⟩ := valuesOf_eq_cons.1 hvalues
  exact ⟨token, rest, htokens, hvalue⟩

namespace Parser

variable {s : State} {token : Spanned Token} {rest : List (Spanned Token)}

/-! ### The rules of the categories -/

/-- The rule that reads the phrases of a category. -/
def ruleOf : (c : Category) → Inner → Rule c.Value
  | .atom, inner => atom inner
  | .signed, inner => signed inner
  | .power, inner => power inner
  | .product, inner => product inner
  | .sum, inner => sum inner
  | .expression, inner => expression inner
  | .arguments, inner => commaList (expression inner)

/-- The rule that goes on once a phrase of a category has been read, which looks for a longer one if there
may be one. -/
def resume : (c : Category) → Inner → (rounds : List (Spanned Token)) → c.Value → Rule c.Value
  | .atom, _, _, node => pure node
  | .signed, _, _, node => pure node
  | .power, _, _, node => pure node
  | .product, inner, rounds, left => moreOperands productOperator? (power inner) rounds left
  | .sum, inner, rounds, left => moreOperands sumOperator? (product inner) rounds left
  | .expression, _, _, node => pure node
  | .arguments, inner, rounds, items => moreItems (expression inner) rounds items.reverse

/-! ### Operators -/

theorem productOperator?_symbol (mark : BinaryMark .product) :
    productOperator? (.symbol mark.symbol) = some mark.operator := by
  cases mark <;> rfl

theorem sumOperator?_symbol (mark : BinaryMark .sum) :
    sumOperator? (.symbol mark.symbol) = some mark.operator := by
  cases mark <;> rfl

theorem comparisonOperator?_symbol (mark : BinaryMark .comparison) :
    comparisonOperator? (.symbol mark.symbol) = some mark.operator := by
  cases mark <;> rfl

theorem productOperator?_eq_none {token : Token} (h : ¬ Tier.product.Marks token) :
    productOperator? token = none := by
  unfold productOperator?
  split
  · exact absurd ⟨.times, rfl⟩ h
  · exact absurd ⟨.slash, rfl⟩ h
  · exact absurd ⟨.percent, rfl⟩ h
  · rfl

theorem sumOperator?_eq_none {token : Token} (h : ¬ Tier.sum.Marks token) : sumOperator? token = none := by
  unfold sumOperator?
  split
  · exact absurd ⟨.plus, rfl⟩ h
  · exact absurd ⟨.minus, rfl⟩ h
  · rfl

theorem comparisonOperator?_eq_none {token : Token} (h : ¬ Tier.comparison.Marks token) :
    comparisonOperator? token = none := by
  unfold comparisonOperator?
  split
  · exact absurd ⟨.equal, rfl⟩ h
  · exact absurd ⟨.notEqual, rfl⟩ h
  · exact absurd ⟨.less, rfl⟩ h
  · exact absurd ⟨.lessOrEqual, rfl⟩ h
  · exact absurd ⟨.greater, rfl⟩ h
  · exact absurd ⟨.greaterOrEqual, rfl⟩ h
  · rfl

/-! ### Names -/

theorem Leads.peek_some {β : Type} (h : s.tokens = token :: rest) (f : Option Token → Rule β) :
    Leads (Parser.peek >>= f) s (f (some token.value)) s := by
  have := Leads.peek (s := s) f
  rw [h] at this
  exact this

theorem Leads.use {β : Type} {name : Identifier} (hnamed : name.spelling ≠ "") (f : Node → Rule β) :
    Leads (Parser.use name >>= f) s (f (.identifier (name.kindOfUse s.constants) name)) s := by
  have huse (log : Log) : Parser.use name { s with log } =
      (pure (.identifier (name.kindOfUse s.constants) name) : Rule Node) { s with log } := by
    change build (Node.ofIdentifier (name.kindOfUse s.constants) name) { s with log } = _
    rw [Node.ofIdentifier, if_neg (by simpa using hnamed)]
    rfl
  have := (Leads.of_eq huse).bind f
  rwa [pure_bind] at this

theorem Leads.nameOf (kind : IdentifierKind) {name : Identifier} (h : s.tokens = token :: rest)
    (htoken : token.value = .identifier name) (hnamed : name.spelling ≠ "") :
    Leads (Parser.nameOf kind) s (pure (.identifier kind name)) (s.past [token] rest) := by
  refine (Leads.next h _).bind _ |>.trans (.of_eq fun log => ?_)
  rw [htoken]
  change build (Node.ofIdentifier kind name) { s.past [token] rest with log } = _
  rw [Node.ofIdentifier, if_neg (by simpa using hnamed)]
  rfl

/-! ### One round of a loop -/

section

variable {α : Type} {t : State} {fits : Prop} {round : Spanned Token} {rounds : List (Spanned Token)}

theorem Runs.nextOperand (round : Spanned Token) {operator? : Token → Option Operator} {operator : Operator} {operand : Rule Node}
    {left right : Node} (h : s.tokens = token :: rest) (hoperator : operator? token.value = some operator)
    (hoperand : Runs operand (s.past [token] rest) fits (pure right) t) :
    Runs (moreOperands operator? operand (round :: rounds) left) s
      (fits ∧ Node.heightOver [left, right] ≤ heightLimit)
      (moreOperands operator? operand rounds (Node.over operator [left, right])) t := by
  refine (Leads.peek_some h _).runs ?_
  rw [Option.bind_some, hoperator]
  refine (Leads.next h _).runs ?_
  exact (hoperand.committed.andThen ((Runs.operation _ _ _).andThen .refl)).congr (by simp)

theorem Stops.nextOperand (round : Spanned Token) {operator? : Token → Option Operator} {operator : Operator} {operand : Rule Node}
    {left : Node} {failure : Failure} (h : s.tokens = token :: rest)
    (hoperator : operator? token.value = some operator)
    (hoperand : Stops operand (s.past [token] rest) fits failure) :
    Stops (moreOperands operator? operand (round :: rounds) left) s fits
      { failure with recoverable := false } := by
  refine (Leads.peek_some h _).stops ?_
  rw [Option.bind_some, hoperator]
  refine (Leads.next h _).stops ?_
  exact hoperand.committed.bind _

theorem Leads.noOperand {operator? : Token → Option Operator} {operand : Rule Node} {left : Node}
    (h : ∀ token, (valuesOf s.tokens).head? = some token → operator? token = none) :
    Leads (moreOperands operator? operand rounds left) s (pure left) s := by
  cases rounds with
  | nil => exact .of_eq fun _ => rfl
  | cons round rounds =>
      refine (Leads.peek _).trans ?_
      rw [← head?_valuesOf]
      cases hhead : (valuesOf s.tokens).head? with
      | none => exact .of_eq fun _ => rfl
      | some token =>
          rw [Option.bind_some, h token hhead]
          exact .of_eq fun _ => rfl

theorem Runs.nextItem (round : Spanned Token) {item : Rule α} {value : α} {reversed : List α} (h : s.tokens = token :: rest)
    (htoken : token.value = .symbol .comma) (hitem : Runs item (s.past [token] rest) fits (pure value) t) :
    Runs (moreItems item (round :: rounds) reversed) s fits (moreItems item rounds (value :: reversed)) t := by
  refine (Leads.peek_some h _).runs ?_
  rw [htoken]
  refine (Leads.next h _).runs ?_
  exact (hitem.committed.andThen .refl).congr (by simp)

theorem Stops.nextItem (round : Spanned Token) {item : Rule α} {reversed : List α} {failure : Failure} (h : s.tokens = token :: rest)
    (htoken : token.value = .symbol .comma) (hitem : Stops item (s.past [token] rest) fits failure) :
    Stops (moreItems item (round :: rounds) reversed) s fits { failure with recoverable := false } := by
  refine (Leads.peek_some h _).stops ?_
  rw [htoken]
  refine (Leads.next h _).stops ?_
  exact hitem.committed.bind _

theorem Leads.noItem {item : Rule α} {reversed : List α}
    (h : (valuesOf s.tokens).head? ≠ some (.symbol .comma)) :
    Leads (moreItems item rounds reversed) s (pure reversed.reverse) s := by
  cases rounds with
  | nil => exact .of_eq fun _ => rfl
  | cons round rounds =>
      refine (Leads.peek _).trans ?_
      rw [← head?_valuesOf]
      split
      · rename_i hcomma
        exact absurd hcomma h
      · exact .of_eq fun _ => rfl

end

/-! ### What the next token decides -/

/-- What is left to do for a call after its arguments. -/
def callEnd (callee : Identifier) (arguments : List Node) : Rule Node := do
  expect (.symbol .closeParen)
  operation .call (.identifier .function callee :: arguments)

/-- What is left to do for a call after its opening parenthesis. -/
def callRest (inner : Inner) (callee : Identifier) : Rule Node :=
  deeper (commaList inner.expression) >>= callEnd callee

/-- What is left to do after an expression in parentheses. -/
def enclosedEnd (enclosed : Node) : Rule Node := do
  expect (.symbol .closeParen)
  return enclosed

/-- What is left to do after an opening parenthesis that encloses an expression. -/
def enclosedRest (inner : Inner) : Rule Node := deeper (committed inner.expression) >>= enclosedEnd

/-- What is left to do after a minus sign in front of its operand. -/
def negatedRest (inner : Inner) : Rule Node :=
  deeper (committed inner.signed) >>= fun operand => operation .negate [operand]

/-- What is left to do after a base and a caret. -/
def raisedRest (inner : Inner) (base : Node) : Rule Node :=
  deeper (committed inner.power) >>= fun exponent => operation .power [base, exponent]

/-- What is left to do after the left side of a comparison and its operator. -/
def comparedRest (inner : Inner) (operator : Operator) (left : Node) : Rule Node :=
  committed (sum inner) >>= fun right => operation operator [left, right]

section

variable {inner : Inner} {paren : Spanned Token}

theorem Leads.callee {callee : Identifier} (h : s.tokens = token :: paren :: rest)
    (htoken : token.value = .identifier callee) (hnamed : callee.spelling ≠ "")
    (hparen : paren.value = .symbol .openParen) :
    Leads (atom inner) s (callRest inner callee) (s.past [token, paren] rest) := by
  refine (Leads.next h _).trans ?_
  rw [htoken]
  refine (Leads.use hnamed _).trans ?_
  refine (Leads.peek_some (State.past_tokens ..) _).trans ?_
  rw [hparen]
  refine (Leads.expect (State.past_tokens ..) hparen _).trans ?_
  rw [State.past_past]
  exact .of_eq fun _ => rfl

theorem Leads.reference {used : Identifier} (h : s.tokens = token :: rest)
    (htoken : token.value = .identifier used) (hnamed : used.spelling ≠ "")
    (hparen : (valuesOf rest).head? ≠ some (.symbol .openParen)) :
    Leads (atom inner) s (pure (.identifier (used.kindOfUse s.constants) used)) (s.past [token] rest) := by
  refine (Leads.next h _).trans ?_
  rw [htoken]
  refine (Leads.use hnamed _).trans ?_
  refine (Leads.peek _).trans ?_
  rw [← head?_valuesOf]
  split
  · rename_i hhead
    exact absurd hhead hparen
  · exact .of_eq fun _ => rfl

theorem Leads.openParen (h : s.tokens = token :: rest) (htoken : token.value = .symbol .openParen) :
    Leads (atom inner) s (enclosedRest inner) (s.past [token] rest) := by
  refine (Leads.next h _).trans ?_
  rw [htoken]
  exact .of_eq fun _ => rfl

theorem Leads.minus (h : s.tokens = token :: rest) (htoken : token.value = .symbol .minus) :
    Leads (signed inner) s (negatedRest inner) (s.past [token] rest) := by
  refine (Leads.peek_some h _).trans ?_
  rw [htoken]
  exact Leads.next h _

theorem Leads.unsigned (h : (valuesOf s.tokens).head? ≠ some (.symbol .minus)) :
    Leads (signed inner) s (atom inner) s := by
  refine (Leads.peek _).trans ?_
  rw [← head?_valuesOf]
  split
  · rename_i hhead
    exact absurd hhead h
  · exact .of_eq fun _ => rfl

/-- The part of a power after its base. -/
def powerRest (inner : Inner) (base : Node) : Rule Node := do
  match ← peek with
  | some (.symbol .caret) =>
      let _ ← next
      raisedRest inner base
  | _ => return base

theorem Leads.caret {base : Node} (h : s.tokens = token :: rest) (htoken : token.value = .symbol .caret) :
    Leads (powerRest inner base) s (raisedRest inner base) (s.past [token] rest) := by
  refine (Leads.peek_some h _).trans ?_
  rw [htoken]
  exact Leads.next h _

theorem Leads.noCaret {base : Node} (h : (valuesOf s.tokens).head? ≠ some (.symbol .caret)) :
    Leads (powerRest inner base) s (pure base) s := by
  refine (Leads.peek _).trans ?_
  rw [← head?_valuesOf]
  split
  · rename_i hhead
    exact absurd hhead h
  · exact .of_eq fun _ => rfl

/-- The part of a chain of operands after the first. -/
def operandsRest (operator? : Token → Option Operator) (operand : Rule Node) (first : Node) : Rule Node := do
  moreOperands operator? operand (← tokensLeft) first

/-- The part of a list with commas after the attempt at its first item. -/
def itemsRest {α : Type} (item : Rule α) (first? : Option α) : Rule (List α) := do
  match first? with
  | none => return []
  | some first => moreItems item (← tokensLeft) [first]

/-- The part of an expression after its first sum. -/
def expressionRest (inner : Inner) (left : Node) : Rule Node := do
  match (← peek).bind comparisonOperator? with
  | none => return left
  | some operator =>
      let _ ← next
      comparedRest inner operator left

theorem Leads.comparison {left : Node} {mark : BinaryMark .comparison} (h : s.tokens = token :: rest)
    (htoken : token.value = .symbol mark.symbol) :
    Leads (expressionRest inner left) s (comparedRest inner mark.operator left) (s.past [token] rest) := by
  refine (Leads.peek_some h _).trans ?_
  rw [Option.bind_some, htoken, comparisonOperator?_symbol]
  exact Leads.next h _

theorem Leads.noComparison {left : Node}
    (h : ∀ token, (valuesOf s.tokens).head? = some token → ¬ Tier.comparison.Marks token) :
    Leads (expressionRest inner left) s (pure left) s := by
  refine (Leads.peek _).trans ?_
  rw [← head?_valuesOf]
  cases hhead : (valuesOf s.tokens).head? with
  | none => exact .of_eq fun _ => rfl
  | some token =>
      rw [Option.bind_some, comparisonOperator?_eq_none (h token hhead)]
      exact .of_eq fun _ => rfl

end

theorem Runs.callEnd (callee : Identifier) (arguments : List Node) (h : s.tokens = token :: rest)
    (htoken : token.value = .symbol .closeParen) :
    Runs (callEnd callee arguments) s (1 + max 1 ((arguments.map Node.height).foldr max 0) ≤ heightLimit)
      (pure (Node.over .call (.identifier .function callee :: arguments))) (s.past [token] rest) :=
  (Leads.expect h htoken _).runs (.operation ..)

theorem Runs.enclosedEnd (enclosed : Node) (h : s.tokens = token :: rest)
    (htoken : token.value = .symbol .closeParen) :
    Runs (enclosedEnd enclosed) s True (pure enclosed) (s.past [token] rest) :=
  (Leads.expect h htoken _).runs .refl

/-! ### Where no phrase starts -/

/-- The failure of an expression that a token cannot begin. -/
def noExpression (token : Spanned Token) : Failure := ⟨⟨.expectedExpression, token.span⟩, true⟩

/-- On a token that begins no expression, every rule of an expression fails alike. -/
theorem Fails.noPhrase {c : Category} {inner : Inner} (hc : c ≠ .arguments) (h : s.tokens = token :: rest)
    (hstart : ¬ token.value.StartsPhrase) : Fails (ruleOf c inner) s (· = noExpression token) := by
  have hatom : Fails (atom inner) s (· = noExpression token) := by
    refine (Leads.next h _).fails ?_
    split
    · rename_i value hvalue
      exact absurd (by rw [hvalue]; trivial) hstart
    · rename_i name hname
      exact absurd (by rw [hname]; trivial) hstart
    · rename_i hparen
      exact absurd (by rw [hparen]; trivial) hstart
    · exact fun log => ⟨_, _, rfl, rfl⟩
  have hsigned : Fails (signed inner) s (· = noExpression token) := by
    refine (Leads.unsigned ?_).fails hatom
    rw [h, valuesOf_cons, List.head?_cons, ne_eq, Option.some.injEq]
    intro hminus
    exact hstart (by rw [hminus]; trivial)
  cases c with
  | atom => exact hatom
  | signed => exact hsigned
  | power => exact hsigned.bind _
  | product => exact (hsigned.bind _).bind _
  | sum => exact ((hsigned.bind _).bind _).bind _
  | expression => exact (((hsigned.bind _).bind _).bind _).bind _
  | arguments => exact absurd rfl hc

end Parser

end FormulaCompiler
