/-!
# Operators

The operations and declarations that a tree is built from. An operation node carries only the code of
its operator, so that trees with codes of no operator can be built, shown and compared as well.
-/

namespace FormulaCompiler

structure OperatorCode where
  value : Int32
  deriving DecidableEq

/-- The operators of the language, declarations and sequences included. -/
inductive Operator where
  | sequence
  | defineConst
  | defineLet
  | assign
  | function
  | parameters
  | call
  | negate
  | add
  | subtract
  | multiply
  | divide
  | modulo
  | power
  | equal
  | notEqual
  | less
  | lessOrEqual
  | greater
  | greaterOrEqual
  deriving DecidableEq

namespace Operator

def code : Operator → OperatorCode
  | sequence => ⟨256⟩
  | defineConst => ⟨257⟩
  | defineLet => ⟨258⟩
  | assign => ⟨259⟩
  | function => ⟨260⟩
  | parameters => ⟨261⟩
  | call => ⟨262⟩
  | negate => ⟨263⟩
  | add => ⟨264⟩
  | subtract => ⟨265⟩
  | multiply => ⟨266⟩
  | divide => ⟨267⟩
  | modulo => ⟨268⟩
  | power => ⟨269⟩
  | equal => ⟨270⟩
  | notEqual => ⟨271⟩
  | less => ⟨272⟩
  | lessOrEqual => ⟨273⟩
  | greater => ⟨274⟩
  | greaterOrEqual => ⟨275⟩

def all : List Operator :=
  [sequence, defineConst, defineLet, assign, function, parameters, call, negate, add, subtract,
    multiply, divide, modulo, power, equal, notEqual, less, lessOrEqual, greater, greaterOrEqual]

theorem mem_all (operator : Operator) : operator ∈ all := by cases operator <;> decide

/-- The operator that a code stands for, if it stands for one. -/
def ofCode? (code : OperatorCode) : Option Operator :=
  all.find? fun operator => operator.code = code

theorem ofCode?_code (operator : Operator) : ofCode? operator.code = some operator := by
  cases operator <;> decide

/-- The name of the stack instruction that performs an operator. -/
def mnemonic : Operator → String
  | sequence => "seq"
  | defineConst => "const"
  | defineLet => "let"
  | assign => "store"
  | function => "func"
  | parameters => "params"
  | call => "call"
  | negate => "neg"
  | add => "add"
  | subtract => "sub"
  | multiply => "mul"
  | divide => "div"
  | modulo => "mod"
  | power => "pow"
  | equal => "eq"
  | notEqual => "ne"
  | less => "lt"
  | lessOrEqual => "le"
  | greater => "gt"
  | greaterOrEqual => "ge"

/-- How an s-expression shows an operator: by its sign in the source, if it has one of its own. -/
def text : Operator → String
  | assign => "="
  | add => "+"
  | subtract => "-"
  | multiply => "*"
  | divide => "/"
  | modulo => "%"
  | power => "^"
  | equal => "=="
  | notEqual => "!="
  | less => "<"
  | lessOrEqual => "<="
  | greater => ">"
  | greaterOrEqual => ">="
  | other => other.mnemonic

end Operator

namespace OperatorCode

def toInt (code : OperatorCode) : Int := code.value.toInt

/-- The operator's text, or the number of a code without an operator. -/
def text (code : OperatorCode) : String :=
  match Operator.ofCode? code with
  | some operator => operator.text
  | none => "#" ++ toString code.toInt

end OperatorCode

end FormulaCompiler
