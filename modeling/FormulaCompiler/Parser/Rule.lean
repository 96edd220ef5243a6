import FormulaCompiler.Log
import FormulaCompiler.Position
import FormulaCompiler.SyntaxError

/-!
# Parser rules

A rule reads tokens from the front of those left and builds a value, or fails with an error at the
last token read. After a recoverable failure the caller may try something else; any other failure ends
the parse. The nesting depth counts the constructs under way that a rule has entered through `deeper`,
and `optional` undoes everything but the log when its rule fails.
-/

namespace FormulaCompiler.Parser

/-- The deepest nesting of parentheses, argument lists, negations and exponents. -/
def nestingLimit : Nat := 128

/-- The greatest height of a tree that is built. -/
def heightLimit : Nat := 512

structure State where
  tokens : List (Spanned Token)
  /-- The place of the last token read, or the start of the unit before the first. -/
  lastRead : Span
  /-- The names declared constant so far. -/
  constants : List Identifier := []
  /-- The number of nested constructs under way. -/
  depth : Nat := 0
  /-- Whether every operation built is logged. -/
  traced : Bool
  log : Log

/-- Why a rule failed, and whether an alternative may still succeed. -/
structure Failure where
  error : Spanned SyntaxError
  recoverable : Bool

/-- A rule that builds a value. A failed rule leaves the state in which it failed. -/
abbrev Rule (α : Type) := EStateM Failure State α

variable {α : Type}

/-- Fails for good at the last token read. -/
def fail (error : SyntaxError) : Rule α := do
  throw { error := ⟨error, (← get).lastRead⟩, recoverable := false }

/-- Runs a rule and decides whether its failure can be recovered from. -/
def failing (recoverable : Bool) (rule : Rule α) : Rule α := fun state =>
  match rule state with
  | .ok value after => .ok value after
  | .error failure after => .error { failure with recoverable } after

/-- Runs a rule whose failure an alternative may mend. -/
def tentative (rule : Rule α) : Rule α := failing true rule

/-- Runs a rule that nothing can stand in for. -/
def committed (rule : Rule α) : Rule α := failing false rule

/-- The value of a rule, or nothing if its failure can be recovered from. A failure of either kind
leaves the state as it was before the rule, with the log of what it did. -/
def optional (rule : Rule α) : Rule (Option α) := fun state =>
  match rule state with
  | .ok value after => .ok (some value) after
  | .error failure after =>
      let restored := { state with log := after.log }
      if failure.recoverable then .ok none restored else .error failure restored

/-! ### Tokens -/

/-- The next token, which stays where it is. -/
def peek : Rule (Option Token) := do return (← get).tokens.head?.map (·.value)

def next : Rule Token := do
  match (← get).tokens with
  | [] => fail .unexpectedEnd
  | token :: tokens =>
      modify fun state => { state with tokens, lastRead := token.span }
      return token.value

/-- Reads the next token, which has to be the given one. -/
def expect (wanted : Token) : Rule Unit := do
  match (← get).tokens with
  | [] => fail (.missingToken wanted)
  | _ :: _ =>
      let found ← next
      if found == wanted then return () else fail (.unexpectedToken wanted found)

/-- The tokens left. A loop that reads a token in every round runs along them. -/
def tokensLeft : Rule (List (Spanned Token)) := do return (← get).tokens

/-! ### Nesting -/

def deeper (rule : Rule α) : Rule α := do
  if nestingLimit ≤ (← get).depth then fail (.nestingTooDeep nestingLimit)
  modify fun state => { state with depth := state.depth + 1 }
  let value ← rule
  modify fun state => { state with depth := state.depth - 1 }
  return value

/-! ### Nodes -/

/-- The result of building a node. A misuse of the tree is never mended by an alternative. -/
def build (result : Except TreeMisuse α) : Rule α :=
  match result with
  | .ok value => return value
  | .error misuse => fail (.tree misuse)

/-- Builds an operation over its operands, unless the tree becomes too high. -/
def operation (operator : Operator) (operands : List Node) : Rule Node := do
  let node ← build ((Node.ofCode operator.code).edited (Node.appendAll operands))
  if heightLimit < node.height then fail (.nestingTooDeep heightLimit)
  let state ← get
  if state.traced then
    let entry := ⟨.trace, "reduced " ++ node.text ++ " at " ++ state.lastRead.text⟩
    modify fun state => { state with log := state.log.push entry }
  return node

end FormulaCompiler.Parser
