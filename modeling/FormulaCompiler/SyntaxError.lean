import FormulaCompiler.Node

/-!
# Syntax errors

Why a sequence of tokens is not a unit of the language.
-/

namespace FormulaCompiler

/-- Why tokens do not form a unit. -/
inductive SyntaxError where
  | unexpectedToken (expected found : Token)
  | missingToken (expected : Token)
  | expectedIdentifier
  | expectedExpression
  | expectedSeparator
  | unexpectedEnd
  /-- The unit nests deeper, or its tree grows higher, than the limit. -/
  | nestingTooDeep (limit : Nat)
  | tree (error : TreeMisuse)
  deriving DecidableEq

def SyntaxError.message : SyntaxError → String
  | unexpectedToken expected found =>
      "Expected token " ++ expected.text ++ ", found " ++ found.text ++ " instead"
  | missingToken expected => "Expected token " ++ expected.text ++ ", none was found instead"
  | expectedIdentifier => "Expected identifier"
  | expectedExpression => "Expected an expression"
  | expectedSeparator => "Expected `;` or end of input"
  | unexpectedEnd => "Abrupt end of program"
  | nestingTooDeep limit => "Expression nesting exceeds " ++ toString limit ++ " levels"
  | tree error => "Malformed syntax tree: " ++ error.message

end FormulaCompiler
