import FormulaCompiler.Proofs.Listing.Instruction
import FormulaCompiler.Proofs.TextLines
import FormulaCompiler.Proofs.Tree

/-!
# Decoding a listing

The lines of a listing are performed on a stack of nodes. The instructions of a tree leave the tree on top of
whatever the stack held before, and go on with what comes after them (`execute_instructions`); so a whole
listing decodes to its tree (`decode_text_of_printable`). Decoding fails, rather than makes something up,
where an instruction finds too few operands, a line cannot be read, or the return does not find exactly one
node.
-/

namespace FormulaCompiler

/-- No number of the tree is a NaN, and no name in it is written over more than one line. -/
inductive Node.Printable : Node → Prop where
  | number {value : Binary64} {kind : NumberKind} (hvalue : value.isNaN = false) : Printable (.number value kind)
  | identifier {kind : IdentifierKind} {name : Identifier} (hname : '\n' ∉ name.spelling.toList) :
      Printable (.identifier kind name)
  | operation {code : OperatorCode} {operands : List Node} {height : Nat}
      (hoperands : ∀ operand ∈ operands, Printable operand) : Printable (.operation code operands height)

namespace Listing

/-- The stack after an instruction, its top first, unless there are fewer operands than it takes. -/
def perform : Instruction → List Node → Option (List Node)
  | .push value kind, stack => some (.number value kind :: stack)
  | .load kind name, stack => some (.identifier kind name :: stack)
  | .perform code arity, stack =>
      if stack.length < arity then none
      else
        let operands := (stack.take arity).reverse
        some (.operation code operands (Node.heightOver operands) :: stack.drop arity)

/-- What the return gives: the only node of the stack, if nothing comes after the return. -/
def returned : List (List Char) → List Node → Option Node
  | [], [node] => some node
  | _, _ => none

/-- Performs lines up to the return. -/
def execute : List (List Char) → List Node → Option Node
  | [], _ => none
  | line :: lines, stack =>
      if line = ['\t', 'r', 'e', 't'] then returned lines stack
      else (Instruction.ofLine? line).bind fun instruction => (perform instruction stack).bind (execute lines)

/-- The tree of a listing: what its lines after the heading leave. -/
def decode (text : String) : Option Node := execute ((Text.lines text.toList).drop 4) []

variable {instruction : Instruction} {rest : List (List Char)} {stack after : List Node} {node : Node}

/-! ### Instructions -/

theorem execute_instruction (hprintable : instruction.Printable)
    (hperform : perform instruction stack = some after) :
    execute (instruction.text.toList :: rest) stack = execute rest after := by
  have hreturn : instruction.text.toList ≠ ['\t', 'r', 'e', 't'] := by
    intro h
    have hlength := congrArg List.length h
    rw [Instruction.toList_text] at hlength
    simp only [List.length_cons, List.length_append, List.length_replicate, String.length_toList,
      List.length_nil, Instruction.opcodeWidth] at hlength
    omega
  rw [execute, if_neg hreturn, Instruction.ofLine?_text hprintable, Option.bind_some, hperform, Option.bind_some]

theorem perform_operation (code : OperatorCode) (operands : List Node) :
    perform (.perform code operands.length) (operands.reverse ++ stack) =
      some (.operation code operands (Node.heightOver operands) :: stack) := by
  have hlength : operands.reverse.length = operands.length := List.length_reverse
  rw [perform, if_neg (by rw [List.length_append]; omega), List.take_left' hlength, List.drop_left' hlength,
    List.reverse_reverse]

def linesOf (instructions : List Instruction) : List (List Char) := instructions.map fun i => i.text.toList

theorem execute_operands {operands : List Node} (hoperands : ∀ operand ∈ operands, ∀ (rest : List (List Char))
      (stack : List Node), execute (linesOf operand.instructions ++ rest) stack = execute rest (operand :: stack)) :
    execute (linesOf (Node.operandsInstructions operands) ++ rest) stack =
      execute rest (operands.reverse ++ stack) := by
  induction operands generalizing stack with
  | nil => rfl
  | cons operand operands ih =>
      rw [List.forall_mem_cons] at hoperands
      rw [Node.operandsInstructions, linesOf, List.map_append, List.append_assoc]
      show execute (linesOf operand.instructions ++ (linesOf (Node.operandsInstructions operands) ++ rest)) stack = _
      rw [hoperands.1, ih hoperands.2, List.reverse_cons, List.append_assoc]
      rfl

/-- The instructions of a tree push the tree. -/
theorem execute_instructions (hgrown : node.Grown) (hprintable : node.Printable) (rest : List (List Char))
    (stack : List Node) :
    execute (linesOf node.instructions ++ rest) stack = execute rest (node :: stack) := by
  induction hgrown generalizing rest stack with
  | number value kind =>
      cases hprintable with
      | number hvalue => exact execute_instruction hvalue rfl
  | identifier kind name =>
      cases hprintable with
      | identifier hname => exact execute_instruction hname rfl
  | @operation code operands hgrown ih =>
      cases hprintable with
      | operation hoperands =>
          rw [Node.instructions, linesOf, List.map_append, List.append_assoc]
          show execute (linesOf (Node.operandsInstructions operands) ++ _) stack = _
          rw [execute_operands fun operand hmem => ih operand hmem (hoperands operand hmem)]
          exact execute_instruction trivial (perform_operation code operands)

theorem printable_operandsInstructions {operands : List Node}
    (hoperands : ∀ operand ∈ operands, ∀ instruction ∈ operand.instructions, instruction.Printable) :
    ∀ instruction ∈ Node.operandsInstructions operands, instruction.Printable := by
  induction operands with
  | nil => simp [Node.operandsInstructions]
  | cons operand operands ih =>
      rw [List.forall_mem_cons] at hoperands
      rw [Node.operandsInstructions, List.forall_mem_append]
      exact ⟨hoperands.1, ih hoperands.2⟩

theorem printable_instructions (hprintable : node.Printable) :
    ∀ instruction ∈ node.instructions, instruction.Printable := by
  induction hprintable with
  | number hvalue => simpa [Node.instructions, Instruction.Printable] using hvalue
  | identifier hname => simpa [Node.instructions, Instruction.Printable] using hname
  | operation hoperands ih =>
      rw [Node.instructions, List.forall_mem_append]
      exact ⟨printable_operandsInstructions ih, by simp [Instruction.Printable]⟩

/-! ### Lines -/

theorem newline_notMem_heading {unit : String} (hunit : '\n' ∉ unit.toList) :
    ∀ line ∈ heading unit, '\n' ∉ line.toList := by
  simp [heading, hunit]

theorem newline_notMem_body (hprintable : node.Printable) :
    ∀ line ∈ linesOf node.instructions ++ [['\t', 'r', 'e', 't']], '\n' ∉ line := by
  rw [List.forall_mem_append, linesOf, List.forall_mem_map]
  refine ⟨?_, by decide⟩
  intro instruction hmem
  exact Instruction.newline_notMem_text (printable_instructions hprintable instruction hmem)

/-- The lines of a listing are those of the heading and those that are performed. -/
theorem map_toList_lines (unit : String) (node : Node) : (lines unit node).map String.toList =
    (heading unit).map String.toList ++ (linesOf node.instructions ++ [['\t', 'r', 'e', 't']]) := by
  rw [lines, List.append_assoc, List.map_append, List.map_append, List.map_map]
  rfl

theorem toList_text (unit : String) (node : Node) :
    (text unit node).toList = ((lines unit node).map String.toList).flatMap fun line => line ++ ['\n'] := by
  rw [text, String.toList_join, List.flatMap_map, List.flatMap_map]
  simp only [String.toList_append]
  rfl

theorem lines_text {unit : String} (hunit : '\n' ∉ unit.toList) (hprintable : node.Printable) :
    Text.lines (text unit node).toList = (lines unit node).map String.toList := by
  have hlines : ∀ line ∈ (lines unit node).map String.toList, '\n' ∉ line := by
    rw [map_toList_lines, List.forall_mem_append, List.forall_mem_map]
    exact ⟨newline_notMem_heading hunit, newline_notMem_body hprintable⟩
  rw [toList_text, Text.lines_flatMap hlines]

theorem decode_text_of_printable (unit : String) (hunit : '\n' ∉ unit.toList) (hgrown : node.Grown)
    (hprintable : node.Printable) : decode (text unit node) = some node := by
  have hbody : ((lines unit node).map String.toList).drop 4 =
      linesOf node.instructions ++ [['\t', 'r', 'e', 't']] := by
    rw [map_toList_lines]
    rfl
  rw [decode, lines_text hunit hprintable, hbody, execute_instructions hgrown hprintable]
  rfl

end Listing

end FormulaCompiler
