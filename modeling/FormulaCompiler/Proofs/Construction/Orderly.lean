import FormulaCompiler.Proofs.Construction.Calls

/-!
# The order of construction

Main statement: what holds of the nodes that any calls have led to, what the next calls make of them, and which of them
fail and leave everything as it was (`orderly`).
-/

namespace FormulaCompiler.Node

/-- What holds of nodes that have been built, and of what is built further on them. -/
structure Orderly (nodes : List Node) : Prop where
  /-- The height of an operation is one more than that of its highest operand, and one without operands. -/
  height (root : Node) (hroot : root ∈ nodes) (code : OperatorCode) (operands : List Node) (height : Nat)
    (h : (operation code operands height).Within root) :
    (operands = [] → height = 1) ∧ (∀ operand ∈ operands, operand.height + 1 ≤ height) ∧
      (operands ≠ [] → ∃ operand ∈ operands, height = operand.height + 1)
  named (root : Node) (hroot : root ∈ nodes) (kind : IdentifierKind) (name : Identifier)
    (h : (identifier kind name).Within root) : name.spelling ≠ ""
  /-- The operands of an operation are found in their places, and no others. -/
  operandAt (root : Node) (hroot : root ∈ nodes) (code : OperatorCode) (operands : List Node) (height : Nat)
    (h : (operation code operands height).Within root) (index : Nat) :
    (∀ operand, operands[index]? = some operand → (operation code operands height).operandAt index = .ok operand) ∧
      (operands.length ≤ index →
        (operation code operands height).operandAt index = .error (.operandOutOfRange index operands.length))
  /-- A node stays of its shape, and an operation of its operator. Only children appended to it are added. -/
  becomes (place : Nat) (node : Node) (hnode : nodes[place]? = some node) (later : List Call) :
    ∃ now, (Call.afterAll nodes later)[place]? = some now ∧ now.shape = node.shape ∧ now.code? = node.code? ∧
      node.Becomes (Call.allAppended place nodes later) now
  /-- So an operation has the children appended to it since it was begun. -/
  operands (code : OperatorCode) (later : List Call) :
    ∃ height, (Call.afterAll ((Call.operation code).after nodes) later)[nodes.length]? =
      some (operation code (Call.allAppended nodes.length ((Call.operation code).after nodes) later) height)
  /-- The calls that fail are those that misuse a node, and they leave all nodes as they were. -/
  fails (call : Call) (misuse : TreeMisuse) (later : List Node) :
    call.run nodes = some (.error misuse, later) ↔ Misused nodes call misuse ∧ later = nodes
  /-- The calls that succeed add one node or change the one that they are made on, in nothing but what they are for. -/
  succeeds (call : Call) (later : List Node) : call.run nodes = some (.ok (), later) ↔ Makes nodes call later

/-- **Trees that are built are orderly**, whatever is called for. -/
theorem orderly (calls : List Call) : Orderly (Call.afterAll [] calls) := by
  have hsound : ∀ node ∈ Call.afterAll [] calls, node.Sound :=
    sound_afterAll (fun _ hmem => absurd hmem List.not_mem_nil) calls
  generalize Call.afterAll [] calls = nodes at hsound
  constructor
  case height =>
    intro root hroot code operands height h
    have hheight : height = heightOver operands := hsound root hroot _ h
    rw [hheight]
    exact ⟨fun hempty => hempty ▸ rfl, fun operand hmem => le_heightOver hmem, exists_heightOver_eq⟩
  case named => exact fun root hroot kind name h => hsound root hroot _ h
  case operandAt =>
    intro root hroot code operands height h index
    rw [operandAt_operation]
    refine ⟨fun operand hoperand => ?_, fun hindex => ?_⟩
    · rw [hoperand]
    · rw [List.getElem?_eq_none hindex]
  case becomes =>
    intro place node hnode later
    obtain ⟨now, hnow, hbecomes⟩ := becomes_afterAll hnode later
    exact ⟨now, hnow, hbecomes.shape_eq, hbecomes.code?_eq, hbecomes⟩
  case operands =>
    intro code later
    have hbegun : ((Call.operation code).after nodes)[nodes.length]? = some (ofCode code) := List.getElem?_concat_length
    obtain ⟨now, hnow, hbecomes⟩ := becomes_afterAll hbegun later
    cases hbecomes
    exact ⟨_, hnow⟩
  case fails => exact fun call misuse later => run_eq_error_iff
  case succeeds => exact fun call later => run_eq_ok_iff

/-- A sum that a name and then the sum so far are appended to. Neither an absent operand nor an operand of the name is
appended, and the attempts change nothing. -/
theorem orderly_sum :
    let name : Node := .identifier .variable ⟨"x"⟩
    let part : Node := .operation Operator.add.code [name] 2
    let sum : Node := .operation Operator.add.code [name, part] 3
    let nodes := Call.afterAll [] [.operation Operator.add.code, .identifier .variable ⟨"x"⟩, .append 0 1, .append 0 0]
    nodes = [sum, name] ∧ part.height + 1 ≤ 3 ∧ (Call.append 0 7).run nodes = some (.error .absentOperand, nodes) ∧
      (Call.append 1 7).run nodes = some (.error (.wrongShape .operation .identifier), nodes) := by
  intro name part sum nodes
  have h := orderly [.operation Operator.add.code, .identifier .variable ⟨"x"⟩, .append 0 1, .append 0 0]
  have hnodes : nodes = [sum, name] := rfl
  have hsum : nodes[0]? = some sum := rfl
  have hname : nodes[1]? = some name := rfl
  have hheight := h.height sum (List.mem_of_getElem? hsum) _ _ _ .root
  exact ⟨hnodes, hheight.2.1 part (List.mem_cons_of_mem name List.mem_cons_self),
    (h.fails _ _ _).2 ⟨.absentOperand hsum rfl rfl, rfl⟩, (h.fails _ _ _).2 ⟨.wrongShape rfl hname nofun, rfl⟩⟩

end FormulaCompiler.Node
