import FormulaCompiler.Node

/-!
# Stack listings

A tree is written as the instructions of a stack machine in post-order: a leaf is pushed, and an
operation replaces its operands, which lie on top of the stack in order. The instruction names how
many operands there are, so a listing determines its tree. The listing of a unit is a heading with the
unit's name, one line for each instruction, and a final return.
-/

namespace FormulaCompiler

inductive Instruction where
  | push (value : Binary64) (kind : NumberKind)
  | load (kind : IdentifierKind) (name : Identifier)
  | perform (code : OperatorCode) (arity : Nat)

namespace Instruction

def opcode : Instruction → String
  | push _ kind =>
      match kind with
      | .integer => "pushi"
      | .double => "pushd"
  | load kind _ =>
      match kind with
      | .constant => "loadc"
      | .variable => "load"
      | .function => "ref"
  | perform code _ =>
      match Operator.ofCode? code with
      | some operator => operator.mnemonic
      | none => "op"

/-- What follows the opcode. Only the code of no operator has to be written out. -/
def argument : Instruction → String
  | push value _ => value.text
  | load _ name => name.spelling
  | perform code arity =>
      match Operator.ofCode? code with
      | some _ => toString arity
      | none => toString code.toInt ++ ", " ++ toString arity

/-- The width of the column that opcodes stand in. -/
def opcodeWidth : Nat := 8

/-- The instruction as a line of a listing, without its line break. -/
def text (instruction : Instruction) : String :=
  let opcode := instruction.opcode
  "\t" ++ opcode ++ String.ofList (List.replicate (opcodeWidth - opcode.length) ' ')
    ++ instruction.argument

end Instruction

namespace Node

mutual

/-- The instructions of a tree, in post-order. -/
def instructions : Node → List Instruction
  | number value kind => [.push value kind]
  | identifier kind name => [.load kind name]
  | operation code operands _ =>
      operandsInstructions operands ++ [.perform code operands.length]

def operandsInstructions : List Node → List Instruction
  | [] => []
  | operand :: operands => operand.instructions ++ operandsInstructions operands

end

end Node

namespace Listing

def heading (unit : String) : List String :=
  ["; kabsa listing for unit `" ++ unit ++ "`", ".text", ".global " ++ unit, unit ++ ":"]

def lines (unit : String) (root : Node) : List String :=
  heading unit ++ root.instructions.map Instruction.text ++ ["\tret"]

/-- The whole listing; every line ends in a line break. -/
def text (unit : String) (root : Node) : String :=
  String.join ((lines unit root).map (· ++ "\n"))

end Listing

end FormulaCompiler
