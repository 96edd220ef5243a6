import FormulaCompiler.Proofs.Tree

/-!
# Construction of trees

A tree is built by one call after another on the nodes built so far. What a call does is said once: it fails where it
misuses a node, and leaves all nodes as they were (`Misused`), or it does what it is called for (`Makes`), and there is
nothing else (`run_eq_error_iff`, `run_eq_ok_iff`). So, whatever the calls, every node in every tree is as it should be
(`sound_afterAll`). A node stays what it is: numbers and identifiers may be given another value or kind, and to an
operation the children are added that have been appended to it since (`becomes_afterAll`).
-/

namespace FormulaCompiler.Node

/-! ### Calls -/

/-- What can be called for while trees are built. Nodes are given by their places among those built so far; a child that
is not among them is an absent one. A child is appended as it is at the time, and can be used again. -/
inductive Call where
  | number (value : Binary64)
  | identifier (kind : IdentifierKind) (name : Identifier)
  | operation (code : OperatorCode)
  | clone (place : Nat)
  | cloneOperand (place index : Nat)
  | append (place child : Nat)
  | reclassify (place : Nat) (kind : IdentifierKind)
  | replaceNumber (place : Nat) (value : Binary64)

/-- A new node is put behind the others, if it can be made. -/
def addedTo (nodes : List Node) : Except TreeMisuse Node → Except TreeMisuse Unit × List Node
  | .ok node => (.ok (), nodes ++ [node])
  | .error misuse => (.error misuse, nodes)

/-- A changed node stays in its place as the change leaves it, whether the change succeeds or fails. -/
def changedAt (nodes : List Node) (place : Nat) (edit : Edit) (node : Node) : Except TreeMisuse Unit × List Node :=
  (edit.answer node, nodes.set place (edit.left node))

namespace Call

/-- What a call answers, and the nodes after it. A node that is not there cannot be called upon. -/
def run (nodes : List Node) : Call → Option (Except TreeMisuse Unit × List Node)
  | number value => some (addedTo nodes (.ok (ofNumber value)))
  | identifier kind name => some (addedTo nodes (ofIdentifier kind name))
  | operation code => some (addedTo nodes (.ok (ofCode code)))
  | clone place => nodes[place]?.map fun node => addedTo nodes (.ok node)
  | cloneOperand place index => nodes[place]?.map fun node => addedTo nodes (node.operandAt index)
  | append place child => nodes[place]?.map (changedAt nodes place (Node.append nodes[child]?))
  | reclassify place kind => nodes[place]?.map (changedAt nodes place (Node.reclassify kind))
  | replaceNumber place value => nodes[place]?.map (changedAt nodes place (Node.replaceNumber value))

/-- The nodes after a call. -/
def after (nodes : List Node) (call : Call) : List Node :=
  match call.run nodes with
  | some (_, later) => later
  | none => nodes

/-- The child that a call offers the node at a place. -/
def offered (nodes : List Node) (place : Nat) : Call → List Node
  | append target child => if target = place then nodes[child]?.toList else []
  | _ => []

/-- The child that a call succeeds in appending to the node at a place. -/
def appended (nodes : List Node) (place : Nat) (call : Call) : List Node :=
  match call.run nodes with
  | some (.ok (), _) => call.offered nodes place
  | _ => []

def afterAll (nodes : List Node) (calls : List Call) : List Node := calls.foldl after nodes

/-- The children that calls succeed in appending to the node at a place, in their order. -/
def allAppended (place : Nat) : List Node → List Call → List Node
  | _, [] => []
  | nodes, call :: calls => call.appended nodes place ++ allAppended place (after nodes call) calls

/-- The place of the node that a call is made on, and the shape that the node has to be of. -/
def needs? : Call → Option (Nat × NodeShape)
  | cloneOperand place _ => some (place, .operation)
  | append place _ => some (place, .operation)
  | reclassify place _ => some (place, .identifier)
  | replaceNumber place _ => some (place, .number)
  | _ => none

end Call

variable {node child now root : Node} {nodes later operands : List Node} {kind : IdentifierKind} {name : Identifier}
  {code : OperatorCode} {height place : Nat} {call : Call} {misuse : TreeMisuse} {answer : Except TreeMisuse Unit}

/-! ### Calls that fail -/

/-- Which calls misuse which nodes, and how. A node of the wrong shape is misused whatever is to be appended to it. -/
inductive Misused (nodes : List Node) : Call → TreeMisuse → Prop where
  | wrongShape {call : Call} {place : Nat} {expected : NodeShape} {node : Node} (hcall : call.needs? = some (place, expected))
      (hnode : nodes[place]? = some node) (hshape : node.shape ≠ expected) :
      Misused nodes call (.wrongShape expected node.shape)
  | absentOperand {place child : Nat} {node : Node} (hnode : nodes[place]? = some node) (hshape : node.shape = .operation)
      (hchild : nodes[child]? = none) : Misused nodes (.append place child) .absentOperand
  | operandOutOfRange {place index : Nat} {node : Node} {operands : List Node} (hnode : nodes[place]? = some node)
      (hoperands : node.operands? = .ok operands) (hindex : operands.length ≤ index) :
      Misused nodes (.cloneOperand place index) (.operandOutOfRange index operands.length)
  | emptyName {kind : IdentifierKind} {name : Identifier} (hname : name.spelling = "") :
      Misused nodes (.identifier kind name) .emptyName

/-- Which nodes a call that succeeds makes of some nodes: with one more, or with one of them changed. -/
inductive Makes (nodes : List Node) : Call → List Node → Prop where
  | number (value : Binary64) : Makes nodes (.number value) (nodes ++ [ofNumber value])
  | identifier (kind : IdentifierKind) {name : Identifier} (hname : name.spelling ≠ "") :
      Makes nodes (.identifier kind name) (nodes ++ [.identifier kind name])
  | operation (code : OperatorCode) : Makes nodes (.operation code) (nodes ++ [.operation code [] 1])
  | clone {place : Nat} {node : Node} (hnode : nodes[place]? = some node) : Makes nodes (.clone place) (nodes ++ [node])
  | cloneOperand {place index height : Nat} {code : OperatorCode} {operands : List Node} {operand : Node}
      (hnode : nodes[place]? = some (.operation code operands height)) (hoperand : operands[index]? = some operand) :
      Makes nodes (.cloneOperand place index) (nodes ++ [operand])
  | append {place child height : Nat} {code : OperatorCode} {operands : List Node} {added : Node}
      (hnode : nodes[place]? = some (.operation code operands height)) (hchild : nodes[child]? = some added) :
      Makes nodes (.append place child)
        (nodes.set place (.operation code (operands ++ [added]) (max height (added.height + 1))))
  | reclassify {place : Nat} {old : IdentifierKind} (kind : IdentifierKind) {name : Identifier}
      (hnode : nodes[place]? = some (.identifier old name)) :
      Makes nodes (.reclassify place kind) (nodes.set place (.identifier kind name))
  | replaceNumber {place : Nat} {old : Binary64} {kind : NumberKind} (value : Binary64)
      (hnode : nodes[place]? = some (.number old kind)) :
      Makes nodes (.replaceNumber place value) (nodes.set place (ofNumber value))

theorem operandAt_operation (index : Nat) : (operation code operands height).operandAt index =
    match operands[index]? with
    | some operand => .ok operand
    | none => .error (.operandOutOfRange index operands.length) := rfl

theorem operandAt_of_shape_ne (h : node.shape ≠ .operation) (index : Nat) :
    node.operandAt index = .error (.wrongShape .operation node.shape) := by
  cases node with
  | operation code operands height => exact absurd rfl h
  | _ => rfl

/-- A node that is put back as it was. -/
theorem changedAt_of_error {edit : Edit} (hnode : nodes[place]? = some node) (h : edit node = .error misuse node) :
    changedAt nodes place edit node = (.error misuse, nodes) := by
  obtain ⟨hplace, rfl⟩ := List.getElem?_eq_some_iff.1 hnode
  rw [changedAt, Edit.answer, Edit.left, h]
  exact congrArg (Prod.mk _) (List.set_getElem_self hplace)

theorem changedAt_of_ok {edit : Edit} {left : Node} (h : edit node = .ok () left) :
    changedAt nodes place edit node = (.ok (), nodes.set place left) := by
  rw [changedAt, Edit.answer, Edit.left, h]

theorem run_of_shape_ne {expected : NodeShape} (hcall : call.needs? = some (place, expected))
    (hnode : nodes[place]? = some node) (hshape : node.shape ≠ expected) :
    call.run nodes = some (.error (.wrongShape expected node.shape), nodes) := by
  cases call with
  | cloneOperand place index =>
      cases hcall
      rw [Call.run, hnode, Option.map_some, operandAt_of_shape_ne hshape]
      rfl
  | append place child =>
      cases hcall
      rw [Call.run, hnode, Option.map_some, changedAt_of_error hnode (append_of_shape_ne hshape _)]
      rfl
  | reclassify place kind =>
      cases hcall
      rw [Call.run, hnode, Option.map_some, changedAt_of_error hnode (reclassify_of_shape_ne hshape kind)]
      rfl
  | replaceNumber place value =>
      cases hcall
      rw [Call.run, hnode, Option.map_some, changedAt_of_error hnode (replaceNumber_of_shape_ne hshape value)]
      rfl
  | _ => cases hcall

/-- **A call that fails leaves all nodes as they were.** -/
theorem Misused.run_eq (h : Misused nodes call misuse) : call.run nodes = some (.error misuse, nodes) := by
  cases h with
  | wrongShape hcall hnode hshape => exact run_of_shape_ne hcall hnode hshape
  | @absentOperand place child node hnode hshape hchild =>
      rw [Call.run, hnode, Option.map_some, hchild]
      cases node <;> cases hshape
      rw [changedAt_of_error hnode (append_none _ _ _)]
  | @operandOutOfRange place index node operands hnode hoperands hindex =>
      rw [Call.run, hnode, Option.map_some]
      cases node <;> cases hoperands
      rw [operandAt_operation, List.getElem?_eq_none hindex]
      rfl
  | @emptyName kind name hname =>
      rw [Call.run, ofIdentifier, hname]
      rfl

theorem Makes.run_eq (h : Makes nodes call later) : call.run nodes = some (.ok (), later) := by
  cases h with
  | number value => rfl
  | @identifier kind name hname =>
      rw [Call.run, ofIdentifier, if_neg (mt String.isEmpty_iff.1 hname)]
      rfl
  | operation code => rfl
  | clone hnode =>
      rw [Call.run, hnode]
      rfl
  | cloneOperand hnode hoperand =>
      rw [Call.run, hnode, Option.map_some, operandAt_operation, hoperand]
      rfl
  | append hnode hchild => rw [Call.run, hnode, Option.map_some, hchild, changedAt_of_ok (append_some _ _ _ _)]
  | reclassify kind hnode => rw [Call.run, hnode, Option.map_some, changedAt_of_ok (reclassify_identifier _ _ _)]
  | replaceNumber value hnode => rw [Call.run, hnode, Option.map_some, changedAt_of_ok (replaceNumber_number _ _ _)]

/-- There is nothing else that a call can do. -/
theorem misused_or_makes (h : call.run nodes ≠ none) :
    (∃ misuse, Misused nodes call misuse) ∨ ∃ later, Makes nodes call later := by
  by_cases hwrong : ∃ place expected node, call.needs? = some (place, expected) ∧ nodes[place]? = some node ∧
      node.shape ≠ expected
  · obtain ⟨place, expected, node, hcall, hnode, hshape⟩ := hwrong
    exact .inl ⟨_, .wrongShape hcall hnode hshape⟩
  -- From here on every call is made on a node of the shape that it needs.
  have hright {place : Nat} {expected : NodeShape} {node : Node} (hcall : call.needs? = some (place, expected))
      (hnode : nodes[place]? = some node) : node.shape = expected :=
    Decidable.byContradiction fun hshape => hwrong ⟨place, expected, node, hcall, hnode, hshape⟩
  have hthere {place : Nat} {f : Node → Except TreeMisuse Unit × List Node} (h : nodes[place]?.map f ≠ none) :
      ∃ node, nodes[place]? = some node := Option.ne_none_iff_exists'.1 (mt Option.map_eq_none_iff.2 h)
  cases call with
  | number value => exact .inr ⟨_, .number value⟩
  | identifier kind name =>
      by_cases hname : name.spelling = ""
      · exact .inl ⟨_, .emptyName hname⟩
      · exact .inr ⟨_, .identifier kind hname⟩
  | operation code => exact .inr ⟨_, .operation code⟩
  | clone place =>
      obtain ⟨node, hnode⟩ := hthere h
      exact .inr ⟨_, .clone hnode⟩
  | cloneOperand place index =>
      obtain ⟨node, hnode⟩ := hthere h
      cases node with
      | operation code operands height =>
          cases hoperand : operands[index]? with
          | none => exact .inl ⟨_, .operandOutOfRange hnode rfl (List.getElem?_eq_none_iff.1 hoperand)⟩
          | some operand => exact .inr ⟨_, .cloneOperand hnode hoperand⟩
      | _ => cases hright rfl hnode
  | append place child =>
      obtain ⟨node, hnode⟩ := hthere h
      cases node with
      | operation code operands height =>
          cases hchild : nodes[child]? with
          | none => exact .inl ⟨_, .absentOperand hnode rfl hchild⟩
          | some added => exact .inr ⟨_, .append hnode hchild⟩
      | _ => cases hright rfl hnode
  | reclassify place kind =>
      obtain ⟨node, hnode⟩ := hthere h
      cases node with
      | identifier old name => exact .inr ⟨_, .reclassify kind hnode⟩
      | _ => cases hright rfl hnode
  | replaceNumber place value =>
      obtain ⟨node, hnode⟩ := hthere h
      cases node with
      | number old kind => exact .inr ⟨_, .replaceNumber value hnode⟩
      | _ => cases hright rfl hnode

theorem run_eq_error_iff : call.run nodes = some (.error misuse, later) ↔ Misused nodes call misuse ∧ later = nodes := by
  constructor
  · intro h
    obtain ⟨misuse', hmisused⟩ | ⟨made, hmakes⟩ := misused_or_makes (by rw [h]; exact Option.some_ne_none _)
    · cases hmisused.run_eq.symm.trans h
      exact ⟨hmisused, rfl⟩
    · cases hmakes.run_eq.symm.trans h
  · rintro ⟨hmisused, rfl⟩
    exact hmisused.run_eq

theorem run_eq_ok_iff : call.run nodes = some (.ok (), later) ↔ Makes nodes call later := by
  refine ⟨fun h => ?_, Makes.run_eq⟩
  obtain ⟨misuse', hmisused⟩ | ⟨made, hmakes⟩ := misused_or_makes (by rw [h]; exact Option.some_ne_none _)
  · cases hmisused.run_eq.symm.trans h
  · cases hmakes.run_eq.symm.trans h
    exact hmakes

/-- The nodes after a call are those that it makes, or the same as before it. -/
theorem makes_or_eq (nodes : List Node) (call : Call) :
    Makes nodes call (call.after nodes) ∨ call.after nodes = nodes ∧ ∀ place, call.appended nodes place = [] := by
  have happended (h : ∀ later, call.run nodes ≠ some (.ok (), later)) (place : Nat) : call.appended nodes place = [] := by
    unfold Call.appended
    split
    · exact absurd ‹_› (h _)
    · rfl
  cases hrun : call.run nodes with
  | none =>
      refine .inr ⟨by rw [Call.after, hrun], happended fun later hok => ?_⟩
      cases hrun.symm.trans hok
  | some result =>
      obtain ⟨answer, later⟩ := result
      cases answer with
      | ok =>
          rw [Call.after, hrun]
          exact .inl (run_eq_ok_iff.1 hrun)
      | error misuse =>
          obtain ⟨-, rfl⟩ := run_eq_error_iff.1 hrun
          refine .inr ⟨by rw [Call.after, hrun], happended fun later hok => ?_⟩
          cases hrun.symm.trans hok

/-! ### Sound nodes -/

/-- A node with one more operand of it is as it should be, if both are. -/
theorem Sound.append (hnode : (Node.operation code operands height).Sound) (hchild : child.Sound) :
    (Node.operation code (operands ++ [child]) (max height (child.height + 1))).Sound := by
  rw [hnode.height_eq, ← heightOver_append]
  apply Sound.operation
  rw [List.forall_mem_append, List.forall_mem_singleton]
  exact ⟨hnode.of_mem, hchild⟩

/-- What a call makes of sound nodes are sound nodes. -/
theorem Makes.sound (hnodes : ∀ node ∈ nodes, node.Sound) (h : Makes nodes call later) : ∀ node ∈ later, node.Sound := by
  have hadd {added : Node} (hadded : added.Sound) : ∀ node ∈ nodes ++ [added], node.Sound := by
    rw [List.forall_mem_append, List.forall_mem_singleton]
    exact ⟨hnodes, hadded⟩
  have hset {place : Nat} {changed : Node} (hchanged : changed.Sound) : ∀ node ∈ nodes.set place changed, node.Sound := by
    intro node hmem
    rcases List.mem_or_eq_of_mem_set hmem with hmem | rfl
    · exact hnodes node hmem
    · exact hchanged
  have hplaced {place : Nat} {node : Node} (hnode : nodes[place]? = some node) : node.Sound :=
    hnodes node (List.mem_of_getElem? hnode)
  cases h with
  | number value => exact hadd (.ofNumber value)
  | identifier kind hname => exact hadd (.identifier kind hname)
  | operation code => exact hadd (.operation code fun _ hmem => absurd hmem List.not_mem_nil)
  | clone hnode => exact hadd (hplaced hnode)
  | cloneOperand hnode hoperand => exact hadd ((hplaced hnode).of_mem _ (List.mem_of_getElem? hoperand))
  | append hnode hchild => exact hset ((hplaced hnode).append (hplaced hchild))
  | reclassify kind hnode => exact hset (.identifier kind (hplaced hnode _ .root))
  | replaceNumber value hnode => exact hset (.ofNumber value)

/-- **Whatever is called for, all trees are sound.** -/
theorem sound_afterAll (hnodes : ∀ node ∈ nodes, node.Sound) (calls : List Call) :
    ∀ node ∈ Call.afterAll nodes calls, node.Sound := by
  induction calls generalizing nodes with
  | nil => exact hnodes
  | cons call calls ih =>
      apply ih
      rcases makes_or_eq nodes call with hmakes | ⟨heq, -⟩
      · exact hmakes.sound hnodes
      · rw [heq]
        exact hnodes

/-! ### What becomes of a node -/

/-- What can have become of a node that some children have been appended to since: a number can have another value and
an identifier another kind. -/
inductive Becomes : Node → List Node → Node → Prop where
  | number (value later : Binary64) (kind laterKind : NumberKind) : Becomes (.number value kind) [] (.number later laterKind)
  | identifier (kind later : IdentifierKind) (name : Identifier) :
      Becomes (.identifier kind name) [] (.identifier later name)
  | operation (code : OperatorCode) (operands children : List Node) (height later : Nat) :
      Becomes (.operation code operands height) children (.operation code (operands ++ children) later)

theorem Becomes.refl (node : Node) : node.Becomes [] node := by
  cases node with
  | number value kind => exact .number value value kind kind
  | identifier kind name => exact .identifier kind kind name
  | operation code operands height =>
      have h := Becomes.operation code operands [] height height
      rwa [List.append_nil] at h

theorem Becomes.trans {changed : Node} {first second : List Node} (h : node.Becomes first changed)
    (hnow : changed.Becomes second now) : node.Becomes (first ++ second) now := by
  cases h with
  | number value later kind laterKind =>
      cases hnow
      exact .number value _ kind _
  | identifier kind later name =>
      cases hnow
      exact .identifier kind _ name
  | operation code operands children height later =>
      cases hnow
      rw [List.append_assoc]
      exact .operation code operands _ height _

theorem Becomes.shape_eq {children : List Node} (h : node.Becomes children now) : now.shape = node.shape := by
  cases h <;> rfl

theorem Becomes.code?_eq {children : List Node} (h : node.Becomes children now) : now.code? = node.code? := by
  cases h <;> rfl

/-- What becomes of a node in one call, of its own place or another. -/
theorem Makes.becomes (hnode : nodes[place]? = some node) (h : Makes nodes call later) :
    ∃ now, later[place]? = some now ∧ node.Becomes (call.appended nodes place) now := by
  have hlt := (List.getElem?_eq_some_iff.1 hnode).1
  have hadd {added : Node} : (nodes ++ [added])[place]? = some node := (List.getElem?_append_left hlt).trans hnode
  have hset {target : Nat} {old changed : Node} {children : List Node} (htarget : nodes[target]? = some old)
      (hsame : target = place → old.Becomes children changed) (hother : target ≠ place → children = []) :
      ∃ now, (nodes.set target changed)[place]? = some now ∧ node.Becomes children now := by
    by_cases heq : target = place
    · subst heq
      cases hnode.symm.trans htarget
      exact ⟨changed, List.getElem?_set_self hlt, hsame rfl⟩
    · rw [hother heq]
      exact ⟨node, (List.getElem?_set_ne heq).trans hnode, .refl node⟩
  rw [Call.appended, h.run_eq]
  cases h with
  | @append target child height code operands added htarget hchild =>
      refine hset htarget (fun heq => ?_) fun hne => if_neg hne
      rw [Call.offered, if_pos heq, hchild]
      exact .operation code operands [added] height _
  | reclassify kind htarget => exact hset htarget (fun _ => .identifier _ kind _) fun _ => rfl
  | replaceNumber value htarget => exact hset htarget (fun _ => .number _ value _ _) fun _ => rfl
  | _ => exact ⟨node, hadd, .refl node⟩

/-- **A node stays what it is, and has the operands that have been appended to it.** -/
theorem becomes_afterAll (hnode : nodes[place]? = some node) (calls : List Call) :
    ∃ now, (Call.afterAll nodes calls)[place]? = some now ∧ node.Becomes (Call.allAppended place nodes calls) now := by
  induction calls generalizing nodes node with
  | nil => exact ⟨node, hnode, .refl node⟩
  | cons call calls ih =>
      obtain ⟨changed, hchanged, hcall⟩ : ∃ changed, (call.after nodes)[place]? = some changed ∧
          node.Becomes (call.appended nodes place) changed := by
        rcases makes_or_eq nodes call with hmakes | ⟨heq, hnone⟩
        · exact hmakes.becomes hnode
        · rw [heq, hnone]
          exact ⟨node, hnode, .refl node⟩
      obtain ⟨now, hnow, hcalls⟩ := ih hchanged
      exact ⟨now, hnow, hcall.trans hcalls⟩

end FormulaCompiler.Node
