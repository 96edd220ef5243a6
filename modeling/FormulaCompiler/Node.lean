import FormulaCompiler.Operator
import FormulaCompiler.Token

/-!
# Syntax trees

A node is a number, an identifier of some kind, or an operation with any number of operands. Nodes
are changed in place, by an `Edit`: operations by appending operands, leaves by replacing what they
stand for. A number keeps its kind, and an operation keeps the height of its subtree, so that a tree
that grows too high is noticed at once. Misuse of a node is an error of the caller, named by
`TreeMisuse`.
-/

namespace FormulaCompiler

/-- Whether a number is a 32-bit integer. -/
inductive NumberKind where
  | integer
  | double
  deriving DecidableEq, Inhabited

/-- A number is an integer if cutting it to a signed 32-bit word loses nothing. -/
def NumberKind.of (value : Binary64) : NumberKind :=
  if value.isFinite && Binary64.ofInt value.truncateToWord == value then integer else double

/-- What a name stands for where it occurs. -/
inductive IdentifierKind where
  | constant
  | variable
  | function
  deriving DecidableEq

/-- A node with everything below it. A number comes with its kind, and an operation with the height of
its subtree. -/
inductive Node where
  | number (value : Binary64) (kind : NumberKind)
  | identifier (kind : IdentifierKind) (name : Identifier)
  | operation (code : OperatorCode) (operands : List Node) (height : Nat)
  deriving Inhabited

inductive NodeShape where
  | number
  | identifier
  | operation
  deriving DecidableEq

def NodeShape.text : NodeShape → String
  | number => "number"
  | identifier => "identifier"
  | operation => "operation"

/-- How a tree can be misused. -/
inductive TreeMisuse where
  | absentOperand
  | operandOutOfRange (index count : Nat)
  | wrongShape (expected found : NodeShape)
  | emptyName
  deriving DecidableEq

def TreeMisuse.message : TreeMisuse → String
  | absentOperand => "Attempted to append an absent operand"
  | operandOutOfRange index count =>
      "Operand index " ++ toString index ++ " out of range for operation with " ++ toString count
        ++ " operands"
  | wrongShape expected found =>
      "Expected " ++ expected.text ++ " node, found " ++ found.text ++ " node"
  | emptyName => "Identifiers must not be empty"

namespace Node

/-- Which of the three a node is, which no change to it alters. -/
def shape : Node → NodeShape
  | number _ _ => .number
  | identifier _ _ => .identifier
  | operation _ _ _ => .operation

/-- The number of levels of a subtree; leaves and operations without operands have one. -/
def height : Node → Nat
  | operation _ _ height => height
  | _ => 1

/-! ### Construction -/

/-- A number node, which is of the kind of its value. -/
def ofNumber (value : Binary64) : Node := number value (.of value)

/-- An identifier node, for a name that is not empty. -/
def ofIdentifier (kind : IdentifierKind) (name : Identifier) : Except TreeMisuse Node :=
  if name.spelling.isEmpty then .error .emptyName else .ok (identifier kind name)

def ofCode (code : OperatorCode) : Node := operation code [] 1

/-! ### Changes in place -/

/-- A change of a node, which leaves a node also where it fails. -/
abbrev Edit := EStateM TreeMisuse Node Unit

/-- Whether a change succeeds, and else how the node is misused. -/
def Edit.answer (edit : Edit) (node : Node) : Except TreeMisuse Unit :=
  match edit node with
  | .ok _ _ => .ok ()
  | .error misuse _ => .error misuse

/-- The node that a change leaves. -/
def Edit.left (edit : Edit) (node : Node) : Node :=
  match edit node with
  | .ok _ left => left
  | .error _ left => left

/-- What a change makes of a node, which is given up if the change fails. -/
def edited (node : Node) (edit : Edit) : Except TreeMisuse Node :=
  match edit node with
  | .ok _ left => .ok left
  | .error misuse _ => .error misuse

/-- The misuse of a node where one of another shape is needed. -/
def wrongShape (expected : NodeShape) (node : Node) : TreeMisuse := .wrongShape expected node.shape

/-- Fails unless the node is of some shape. -/
def expect (expected : NodeShape) : Edit := do
  let node ← get
  if node.shape = expected then return () else throw (node.wrongShape expected)

/-- An operation with another height, and any other node as it is. -/
def withHeight (height : Nat) : Node → Node
  | operation code operands _ => operation code operands height
  | other => other

/-- An operation with one more operand, and any other node as it is. -/
def withOperand (child : Node) : Node → Node
  | operation code operands height => operation code (operands ++ [child]) height
  | other => other

/-- Appends an operand to an operation. That the operand is there is only asked of an operation. -/
def append (child : Option Node) : Edit := do
  expect .operation
  match child with
  | none => throw .absentOperand
  | some child =>
      modify fun node => node.withHeight (max node.height (child.height + 1))
      modify (withOperand child)

/-- Appends one operand after another. -/
def appendAll (children : List Node) : Edit := fun node =>
  match node with
  | operation code operands height =>
      .ok () (operation code (operands ++ children)
        (children.foldl (fun height child => max height (child.height + 1)) height))
  | other => if children.isEmpty then .ok () other else .error (other.wrongShape .operation) other

theorem appendAll_cons (child : Node) (children : List Node) :
    appendAll (child :: children) = (do append (some child); appendAll children) := by
  funext node
  cases node with
  | operation code operands height =>
      show _ = EStateM.Result.ok () (operation code ((operands ++ [child]) ++ children) _)
      rw [List.append_assoc]
      rfl
  | _ => rfl

/-- Changes what an identifier stands for, and nothing else. -/
def reclassify (kind : IdentifierKind) : Edit := do
  match ← get with
  | identifier _ name => set (identifier kind name)
  | other => throw (other.wrongShape .identifier)

/-- Changes the value of a number, which is then of the kind of its new value. -/
def replaceNumber (value : Binary64) : Edit := do
  match ← get with
  | number _ _ => set (ofNumber value)
  | other => throw (other.wrongShape .number)

section

variable {node : Node}

theorem append_of_shape_ne (h : node.shape ≠ .operation) (child : Option Node) :
    append child node = .error (node.wrongShape .operation) node := by
  cases node with
  | operation code operands height => exact absurd rfl h
  | _ => rfl

theorem append_none (code : OperatorCode) (operands : List Node) (height : Nat) :
    append none (operation code operands height) = .error .absentOperand (operation code operands height) := rfl

theorem append_some (child : Node) (code : OperatorCode) (operands : List Node) (height : Nat) :
    append (some child) (operation code operands height) =
      .ok () (operation code (operands ++ [child]) (max height (child.height + 1))) := rfl

theorem reclassify_of_shape_ne (h : node.shape ≠ .identifier) (kind : IdentifierKind) :
    reclassify kind node = .error (node.wrongShape .identifier) node := by
  cases node with
  | identifier old name => exact absurd rfl h
  | _ => rfl

theorem reclassify_identifier (kind old : IdentifierKind) (name : Identifier) :
    reclassify kind (identifier old name) = .ok () (identifier kind name) := rfl

theorem replaceNumber_of_shape_ne (h : node.shape ≠ .number) (value : Binary64) :
    replaceNumber value node = .error (node.wrongShape .number) node := by
  cases node with
  | number old kind => exact absurd rfl h
  | _ => rfl

theorem replaceNumber_number (value old : Binary64) (kind : NumberKind) :
    replaceNumber value (number old kind) = .ok () (ofNumber value) := rfl

end

/-! ### Inspection -/

def operands? (node : Node) : Except TreeMisuse (List Node) :=
  match node with
  | operation _ operands _ => .ok operands
  | other => .error (other.wrongShape .operation)

def code? (node : Node) : Except TreeMisuse OperatorCode :=
  match node with
  | operation code _ _ => .ok code
  | other => .error (other.wrongShape .operation)

def operandCount (node : Node) : Except TreeMisuse Nat := node.operands?.map List.length

def operandAt (node : Node) (index : Nat) : Except TreeMisuse Node :=
  node.operands?.bind fun operands =>
    match operands[index]? with
    | some operand => .ok operand
    | none => .error (.operandOutOfRange index operands.length)

mutual

/-- The s-expression of a tree, such as `(+ 1 (* 2 x))`. -/
def text : Node → String
  | number value _ => value.text
  | identifier _ name => name.spelling
  | operation code operands _ => "(" ++ code.text ++ operandsText operands ++ ")"

/-- Operands, each after a space. -/
def operandsText : List Node → String
  | [] => ""
  | operand :: operands => " " ++ operand.text ++ operandsText operands

end

/-! ### Comparison -/

mutual

/-- Equality of trees: numbers are compared by value, so that zeros are equal whatever their sign and a
NaN differs from itself, names without regard to case, and all else has to be the same, kinds and heights
included. -/
def same : Node → Node → Bool
  | number a kindA, number b kindB => a == b && kindA == kindB
  | identifier kindA a, identifier kindB b => kindA == kindB && a == b
  | operation codeA a heightA, operation codeB b heightB =>
      codeA == codeB && heightA == heightB && allSame a b
  | _, _ => false

def allSame : List Node → List Node → Bool
  | [], [] => true
  | a :: as, b :: bs => same a b && allSame as bs
  | _, _ => false

end

instance : BEq Node := ⟨same⟩

end Node

end FormulaCompiler
