import FormulaCompiler.Parser.Rule

/-!
# The grammar

```text
unit       := statement (";" statement)* ";"?
statement  := "const" name "=" expression
            | "let" name "=" expression
            | "fn" name "(" (name ("," name)*)? ")" "=" expression
            | name "=" expression
            | expression
expression := sum (comparison sum)?
sum        := product (("+" | "-") product)*
product    := power (("*" | "/" | "%") power)*
power      := signed ("^" power)?
signed     := "-" signed | atom
atom       := number | name | name "(" (expression ("," expression)*)? ")" | "(" expression ")"
```

Every rule that recurs does so through `deeper`, so the rules of one nesting level are defined from
those of the next, and the levels by recursion on how many remain. A name that is used stands for a
constant if a statement before has declared it so, for a function if it is called, and for a variable
otherwise.
-/

namespace FormulaCompiler.Parser

/-- The rules that other rules use one nesting level deeper. -/
structure Inner where
  expression : Rule Node
  power : Rule Node
  signed : Rule Node

/-! ### Names -/

def name : Rule Identifier := do
  match ← next with
  | .identifier name => return name
  | _ => fail .expectedIdentifier

/-- Reads a name that stands for a thing of the given kind. -/
def nameOf (kind : IdentifierKind) : Rule Node := do build (Node.ofIdentifier kind (← name))

/-- The node for a use of a name. -/
def use (name : Identifier) : Rule Node := do
  let kind := if (← get).constants.contains name then IdentifierKind.constant else .variable
  build (Node.ofIdentifier kind name)

/-! ### Sequences -/

/-- The items after the first of a list with commas, in front of `reversed`, at most one for each token
of `rounds`. -/
def moreItems {α : Type} (item : Rule α) :
    (rounds : List (Spanned Token)) → (reversed : List α) → Rule (List α)
  | [], reversed => return reversed.reverse
  | _ :: rounds, reversed => do
      match ← peek with
      | some (.symbol .comma) =>
          let _ ← next
          let value ← committed item
          moreItems item rounds (value :: reversed)
      | _ => return reversed.reverse

/-- Items with commas between them, perhaps none. Only the first item may be missing. -/
def commaList {α : Type} (item : Rule α) : Rule (List α) := do
  match ← optional item with
  | none => return []
  | some first => moreItems item (← tokensLeft) [first]

/-- The rest of a chain of operands joined by operators of one precedence, to the left of which stands
`left`; at most one operator for each token of `rounds`. -/
def moreOperands (operator? : Token → Option Operator) (operand : Rule Node) :
    (rounds : List (Spanned Token)) → (left : Node) → Rule Node
  | [], left => return left
  | _ :: rounds, left => do
      match (← peek).bind operator? with
      | none => return left
      | some operator =>
          let _ ← next
          let right ← committed operand
          moreOperands operator? operand rounds (← operation operator [left, right])

/-- Operands joined by operators of one precedence, which associate to the left. -/
def leftAssociative (operator? : Token → Option Operator) (operand : Rule Node) : Rule Node := do
  let first ← operand
  moreOperands operator? operand (← tokensLeft) first

/-! ### Expressions -/

def sumOperator? : Token → Option Operator
  | .symbol .plus => some .add
  | .symbol .minus => some .subtract
  | _ => none

def productOperator? : Token → Option Operator
  | .symbol .times => some .multiply
  | .symbol .slash => some .divide
  | .symbol .percent => some .modulo
  | _ => none

def comparisonOperator? : Token → Option Operator
  | .symbol .equal => some .equal
  | .symbol .notEqual => some .notEqual
  | .symbol .less => some .less
  | .symbol .lessOrEqual => some .lessOrEqual
  | .symbol .greater => some .greater
  | .symbol .greaterOrEqual => some .greaterOrEqual
  | _ => none

/-- A number, a name, a call, or an expression in parentheses. -/
def atom (inner : Inner) : Rule Node := do
  match ← next with
  | .number value => return .ofNumber value
  | .identifier name =>
      let used ← use name
      match ← peek with
      | some (.symbol .openParen) =>
          let callee ← build (used.edited (Node.reclassify .function))
          expect (.symbol .openParen)
          let arguments ← deeper (commaList inner.expression)
          expect (.symbol .closeParen)
          operation .call (callee :: arguments)
      | _ => return used
  | .symbol .openParen =>
      let enclosed ← deeper (committed inner.expression)
      expect (.symbol .closeParen)
      return enclosed
  | _ => tentative (fail .expectedExpression)

/-- An atom after any number of minus signs. -/
def signed (inner : Inner) : Rule Node := do
  match ← peek with
  | some (.symbol .minus) =>
      let _ ← next
      let operand ← deeper (committed inner.signed)
      operation .negate [operand]
  | _ => atom inner

/-- A base, perhaps with an exponent, which is a power itself. -/
def power (inner : Inner) : Rule Node := do
  let base ← signed inner
  match ← peek with
  | some (.symbol .caret) =>
      let _ ← next
      let exponent ← deeper (committed inner.power)
      operation .power [base, exponent]
  | _ => return base

def product (inner : Inner) : Rule Node := leftAssociative productOperator? (power inner)

def sum (inner : Inner) : Rule Node := leftAssociative sumOperator? (product inner)

/-- A sum, or the comparison of two. -/
def expression (inner : Inner) : Rule Node := do
  let left ← sum inner
  match (← peek).bind comparisonOperator? with
  | none => return left
  | some operator =>
      let _ ← next
      let right ← committed (sum inner)
      operation operator [left, right]

/-- The rules inside a level that `levels` more can be nested in. Where none is left, `deeper` has
already failed. -/
def innerRules : (levels : Nat) → Inner
  | 0 =>
      let tooDeep := fail (.nestingTooDeep nestingLimit)
      ⟨tooDeep, tooDeep, tooDeep⟩
  | levels + 1 =>
      let inner := innerRules levels
      ⟨expression inner, power inner, signed inner⟩

/-- An expression that nothing encloses. -/
def outerExpression : Rule Node := expression (innerRules nestingLimit)

/-! ### Statements -/

/-- The name, equals sign and value of a declaration. -/
def declaration (kind : IdentifierKind) : Rule (Node × Node) := do
  let name ← nameOf kind
  expect (.symbol .assign)
  let value ← committed outerExpression
  return (name, value)

/-- Adds the name that has been declared to the constants. -/
def addConstant : Node → Rule Unit
  | .identifier _ name => modify fun state => { state with constants := name :: state.constants }
  | _ => return ()

def functionDefinition : Rule Node := do
  expect (.keyword .fnDecl)
  let name ← nameOf .function
  expect (.symbol .openParen)
  let parameters ← commaList (tentative (nameOf .variable))
  expect (.symbol .closeParen)
  expect (.symbol .assign)
  let body ← committed outerExpression
  let parameters ← operation .parameters parameters
  operation .function [name, parameters, body]

/-- The name on the left of an assignment and the equals sign after it. -/
def assignmentTarget : Rule Node := do
  let target ← use (← tentative name)
  tentative (expect (.symbol .assign))
  return target

def statement : Rule Node := do
  match ← peek with
  | some (.keyword .constDecl) =>
      let _ ← next
      let (name, value) ← declaration .constant
      addConstant name
      operation .defineConst [name, value]
  | some (.keyword .letDecl) =>
      let _ ← next
      let (name, value) ← declaration .variable
      operation .defineLet [name, value]
  | some (.keyword .fnDecl) => functionDefinition
  | some (.identifier _) =>
      match ← optional assignmentTarget with
      | none => outerExpression
      | some target =>
          let value ← committed outerExpression
          operation .assign [target, value]
  | _ => outerExpression

/-- The statements after the first of a unit, in front of `reversed`, at most one for each token of
`rounds`. The unit ends with its tokens, perhaps after one more semicolon. -/
def moreStatements :
    (rounds : List (Spanned Token)) → (reversed : List Node) → Rule (List Node)
  | [], reversed => return reversed.reverse
  | _ :: rounds, reversed => do
      match ← peek with
      | none => return reversed.reverse
      | some (.symbol .semicolon) =>
          let _ ← next
          match ← peek with
          | none => return reversed.reverse
          | some _ => moreStatements rounds ((← statement) :: reversed)
      | some _ =>
          let _ ← next
          fail .expectedSeparator

/-- A whole unit. One statement is itself the tree; several are put in sequence. -/
def unit : Rule Node := do
  let first ← statement
  match ← moreStatements (← tokensLeft) [first] with
  | [only] => return only
  | statements => operation .sequence statements

end FormulaCompiler.Parser
