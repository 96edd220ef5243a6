import FormulaCompiler.Proofs.Parser.Account

/-!
# The operations of a tree in the order of their making

An operation is built once its operands have been, so the parser goes through a tree in post-order. The parameters of
a function are the exception: they are read in front of its body, but the node for them is built after it
(`Node.reductions`). A rule that gives a tree has built the operations of that tree and nothing else (`Builds`), and no
attempt that is given up has built any: where its failure can be recovered from, all it has read is a name or a token
that no expression begins with. Main statement: so it is for a whole unit (`reduces_unit`).
-/

namespace FormulaCompiler

namespace Node

/-- What belongs to the operands of an operation, one after the other. The parameters of a function come last. -/
def parametersLast {α : Type} (code : OperatorCode) : List (List α) → List α
  | [name, parameters, body] =>
      if code = Operator.function.code then name ++ body ++ parameters else name ++ parameters ++ body
  | others => others.flatten

mutual

/-- The operations of a tree in the order in which they are built. -/
def reductions : Node → List Node
  | number _ _ => []
  | identifier _ _ => []
  | operation code operands height => parametersLast code (operandsReductions operands) ++ [operation code operands height]

def operandsReductions : List Node → List (List Node)
  | [] => []
  | operand :: operands => operand.reductions :: operandsReductions operands

end

mutual

/-- The operations of a tree in post-order. -/
def operations : Node → List Node
  | number _ _ => []
  | identifier _ _ => []
  | operation code operands height => operandsOperations operands ++ [operation code operands height]

def operandsOperations : List Node → List Node
  | [] => []
  | operand :: operands => operand.operations ++ operandsOperations operands

end

variable {operator : Operator} {operands : List Node}

theorem operandsReductions_eq_map (operands : List Node) : operandsReductions operands = operands.map reductions := by
  induction operands with
  | nil => rfl
  | cons operand operands ih => rw [operandsReductions, ih, List.map_cons]

theorem parametersLast_perm {α : Type} (code : OperatorCode) (lists : List (List α)) :
    (parametersLast code lists).Perm lists.flatten := by
  unfold parametersLast
  split
  · rename_i name parameters body
    simp only [List.flatten_cons, List.flatten_nil, List.append_nil]
    split
    · rw [List.append_assoc]
      exact List.perm_append_comm.append_left name
    · rw [List.append_assoc]
  · exact List.Perm.refl _

mutual

/-- Each operation of a tree is built once. -/
theorem reductions_perm (node : Node) : node.reductions.Perm node.operations := by
  cases node with
  | number value kind => exact List.Perm.refl _
  | identifier kind name => exact List.Perm.refl _
  | operation code operands height =>
      rw [reductions, operations]
      exact ((parametersLast_perm code _).trans (operandsReductions_perm operands)).append_right _

theorem operandsReductions_perm (operands : List Node) :
    (operandsReductions operands).flatten.Perm (operandsOperations operands) := by
  cases operands with
  | nil => exact List.Perm.refl _
  | cons operand operands =>
      rw [operandsReductions, operandsOperations, List.flatten_cons]
      exact operand.reductions_perm.append (operandsReductions_perm operands)

end

theorem reductions_over (h : operator ≠ .function) (operands : List Node) :
    (Node.over operator operands).reductions = operands.flatMap reductions ++ [Node.over operator operands] := by
  have hcode : operator.code ≠ Operator.function.code := by
    intro hcode
    have hsame := operator.ofCode?_code
    rw [hcode, Operator.ofCode?_code] at hsame
    exact h (Option.some.inj hsame).symm
  have hlast (lists : List (List Node)) : parametersLast operator.code lists = lists.flatten := by
    unfold parametersLast
    split
    · rw [if_neg hcode]
      simp
    · rfl
  rw [Node.over, reductions, operandsReductions_eq_map, hlast, List.flatMap_def]

theorem reductions_pair (operator : Operator) (left right : Node) : (Node.over operator [left, right]).reductions =
    left.reductions ++ right.reductions ++ [Node.over operator [left, right]] := by
  rw [Node.over, reductions, operandsReductions_eq_map]
  simp [parametersLast]

theorem reductions_function (name parameters body : Node) :
    (Node.over .function [name, parameters, body]).reductions =
      name.reductions ++ body.reductions ++ parameters.reductions ++ [Node.over .function [name, parameters, body]] := by
  rw [Node.over, reductions, operandsReductions_eq_map]
  simp [parametersLast]

end Node

namespace Parser

variable {α β : Type}

/-- What a rule for a node has built in the end: the operations of the node. -/
def Yields (before : List Node) (node : Node) (all : List Node) : Prop := all = before ++ node.reductions

theorem reduces_operation {operator : Operator} {operands before start : List Node}
    (h : before ++ [Node.over operator operands] = start ++ (Node.over operator operands).reductions) :
    Reduces false (operation operator operands) before (Yields start) := by
  intro s
  cases hoperation : operation operator operands s with
  | ok node t =>
      have hnode : node = Node.over operator operands := by
        rw [operation_eq] at hoperation
        split at hoperation
        · cases hoperation
        · obtain ⟨tokens, lastRead, constants, depth, traced, log⟩ := s
          cases traced <;> cases hoperation <;> rfl
      refine ⟨[⟨node, s.lastRead⟩], ⟨.built hoperation, ?_⟩, nofun⟩
      intro value u hok
      cases hoperation.symm.trans hok
      rw [hnode]
      exact h
  | error failure t =>
      refine ⟨[], ⟨.unbuilt hoperation, ?_⟩, nofun⟩
      rw [hoperation]
      exact nofun

/-! ### Names -/

section

variable {kind : IdentifierKind} {node changed : Node} {s t : State}

theorem reductions_of_ofIdentifier {name : Identifier} (h : Node.ofIdentifier kind name = .ok node) :
    node.reductions = [] := by
  unfold Node.ofIdentifier at h
  split at h <;> cases h
  rfl

theorem reductions_of_reclassify (h : node.edited (Node.reclassify kind) = .ok changed) :
    node.reductions = [] ∧ changed.reductions = [] := by
  cases node <;> cases h
  exact ⟨rfl, rfl⟩

theorem reductions_of_use {name : Identifier} (h : use name s = .ok node t) : node.reductions = [] := by
  obtain ⟨_, _, hget, h⟩ := ok_bind h
  cases hget
  exact reductions_of_ofIdentifier (ok_build h).1

theorem reductions_of_nameOf (h : nameOf kind s = .ok node t) : node.reductions = [] := by
  obtain ⟨name, u, -, h⟩ := ok_bind h
  exact reductions_of_ofIdentifier (ok_build h).1

theorem quiet_name : Quiet name := by
  refine Basic.next.quiet.bind fun token => ?_
  split
  · exact (Basic.pure _).quiet
  · exact (Basic.fail _).quiet

theorem quiet_nameOf (kind : IdentifierKind) : Quiet (nameOf kind) :=
  quiet_name.bind fun _ => (Basic.build _).quiet

theorem quiet_assignmentTarget : Quiet assignmentTarget := by
  refine (quiet_name.failing true).bind fun name => (Basic.use name).quiet.bind fun _ => ?_
  exact ((Basic.expect _).quiet.failing true).bind fun _ => (Basic.pure _).quiet

end

/-! ### Sequences -/

section

variable {tidy : Bool} {before start : List Node}

theorem reduces_pure {post : α → List Node → Prop} {value : α} (h : post value before) :
    Reduces tidy (pure value) before post := by
  refine (Basic.pure value).quiet.reduces fun s value' t hok => ?_
  cases hok
  exact h

theorem reduces_fail {post : α → List Node → Prop} (error : SyntaxError) : Reduces tidy (fail error) before post :=
  (Basic.fail error).quiet.reduces fun s value t hok => by cases hok

/-- What holds of the items of a list and of everything built by then is passed from item to item. -/
theorem reduces_moreItems {item : Rule α} {holds : List α → List Node → Prop}
    (hitem : ∀ values all, holds values all → Reduces tidy item all fun value => holds (values ++ [value]))
    (rounds : List (Spanned Token)) {reversed : List α} (h : holds reversed.reverse before) :
    Reduces false (moreItems item rounds reversed) before holds := by
  induction rounds generalizing reversed before with
  | nil => exact reduces_pure h
  | cons round rounds ih =>
      refine Basic.peek.quiet.then fun _ next? _ _ => ?_
      split
      · refine Basic.next.quiet.then fun _ _ _ _ => ?_
        refine (hitem _ _ h).committed.andThen fun value all hall => ih ?_
        rwa [List.reverse_cons]
      · exact reduces_pure h

theorem reduces_commaList {item : Rule α} {holds : List α → List Node → Prop}
    (hitem : ∀ values all, holds values all → Reduces true item all fun value => holds (values ++ [value]))
    (h : holds [] before) : Reduces false (commaList item) before holds := by
  have hfirst : Reduces false (optional item) before fun first? => holds first?.toList :=
    (hitem [] before h).optional (fun value all hall => hall) h
  refine hfirst.andThen fun first? all hall => ?_
  cases first? with
  | none => exact reduces_pure hall
  | some first => exact Basic.tokensLeft.quiet.then fun _ rounds _ _ => reduces_moreItems hitem rounds hall

/-- Whether a rule for a node builds the operations of the node, and none where an alternative may mend its failure. -/
def Builds (rule : Rule Node) : Prop := ∀ before, Reduces true rule before (Yields before)

theorem reduces_pair {operator : Operator} {left right : Node} {middle : List Node} (hleft : Yields start left middle)
    (hright : Yields middle right before) :
    Reduces false (operation operator [left, right]) before (Yields start) := by
  apply reduces_operation
  rw [Node.reductions_pair, hright, hleft]
  simp only [List.append_assoc]

theorem reduces_moreOperands {operator? : Token → Option Operator} {operand : Rule Node} (hoperand : Builds operand)
    (rounds : List (Spanned Token)) {left : Node} (h : Yields start left before) :
    Reduces false (moreOperands operator? operand rounds left) before (Yields start) := by
  induction rounds generalizing left before with
  | nil => exact reduces_pure h
  | cons round rounds ih =>
      refine Basic.peek.quiet.then fun _ next? _ _ => ?_
      split
      · exact reduces_pure h
      · refine Basic.next.quiet.then fun _ _ _ _ => ?_
        refine (hoperand before).committed.andThen fun right all hright => ?_
        exact (reduces_pair h hright).andThen fun node all hnode => ih hnode

theorem firm_operandsRest (operator? : Token → Option Operator) (operand : Rule Node) (first : Node) :
    Firm (operandsRest operator? operand first) :=
  Basic.tokensLeft.firm.bind fun rounds => firm_moreOperands _ _ rounds first

theorem builds_leftAssociative {operator? : Token → Option Operator} {operand : Rule Node} (hoperand : Builds operand) :
    Builds (leftAssociative operator? operand) := by
  intro before
  refine (hoperand before).bind (fun first all hfirst => ?_) fun _ first => firm_operandsRest operator? operand first
  exact Basic.tokensLeft.quiet.then fun _ rounds _ _ => reduces_moreOperands hoperand rounds hfirst

end

/-! ### Expressions -/

/-- What is left to do for a name that an atom begins with. -/
def nameRest (inner : Inner) (name : Identifier) : Rule Node := do
  let used ← use name
  match ← peek with
  | some (.symbol .openParen) =>
      let callee ← build (used.edited (Node.reclassify .function))
      expect (.symbol .openParen)
      let arguments ← deeper (commaList inner.expression)
      expect (.symbol .closeParen)
      operation .call (callee :: arguments)
  | _ => return used

theorem firm_nameRest (inner : Inner) (name : Identifier) : Firm (nameRest inner name) := by
  refine (Basic.use name).firm.bind fun used => Basic.peek.firm.bind fun next? => ?_
  split
  · refine (Basic.build _).firm.bind fun callee => (Basic.expect _).firm.bind fun _ => ?_
    refine (firm_commaList _).deeper.bind fun arguments => (Basic.expect _).firm.bind fun _ => ?_
    exact firm_operation _ _
  · exact (Basic.pure _).firm

theorem firm_enclosedRest (inner : Inner) : Firm (enclosedRest inner) :=
  (firm_committed _).deeper.bind fun _ => (Basic.expect _).firm.bind fun _ => (Basic.pure _).firm

theorem firm_negatedRest (inner : Inner) : Firm (negatedRest inner) :=
  (firm_committed _).deeper.bind fun _ => firm_operation _ _

theorem firm_powerRest (inner : Inner) (base : Node) : Firm (powerRest inner base) := by
  refine Basic.peek.firm.bind fun next? => ?_
  split
  · exact Basic.next.firm.bind fun _ => (firm_committed _).deeper.bind fun exponent => firm_operation _ _
  · exact (Basic.pure _).firm

theorem firm_expressionRest (inner : Inner) (left : Node) : Firm (expressionRest inner left) := by
  refine Basic.peek.firm.bind fun next? => ?_
  split
  · exact (Basic.pure _).firm
  · exact Basic.next.firm.bind fun _ => (firm_committed _).bind fun right => firm_operation _ _

/-- Whether all rules that are used one level deeper build the operations of their nodes. -/
structure Inner.Builds (inner : Inner) : Prop where
  expression : Parser.Builds inner.expression
  power : Parser.Builds inner.power
  signed : Parser.Builds inner.signed

section

variable {inner : Inner} (hinner : inner.Builds)

include hinner

theorem reduces_nameRest (name : Identifier) (before : List Node) :
    Reduces false (nameRest inner name) before (Yields before) := by
  refine (Basic.use name).quiet.then fun _ used _ hok => Basic.peek.quiet.then fun _ next? _ _ => ?_
  split
  · refine (Basic.build _).quiet.then fun _ callee _ hok => ?_
    have hcallee := (reductions_of_reclassify (ok_build hok).1).2
    refine (Basic.expect _).quiet.then fun _ _ _ _ => ?_
    have harguments : Reduces false (commaList inner.expression) before
        fun arguments all => all = before ++ arguments.flatMap Node.reductions := by
      refine reduces_commaList (fun arguments all hall => ?_) (List.append_nil _).symm
      refine (hinner.expression all).mono fun value all' hvalue => ?_
      rw [hvalue, hall, List.flatMap_append, List.flatMap_singleton, List.append_assoc]
    refine harguments.deeper.andThen fun arguments all hall => ?_
    refine (Basic.expect _).quiet.then fun _ _ _ _ => reduces_operation ?_
    rw [Node.reductions_over (by decide), List.flatMap_cons, hcallee, hall, List.nil_append, List.append_assoc]
  · exact reduces_pure (by rw [Yields, reductions_of_use hok, List.append_nil])

theorem builds_atom : Builds (atom inner) := by
  intro before
  refine Basic.next.quiet.then fun _ token _ _ => ?_
  split
  · exact reduces_pure (List.append_nil _).symm
  · exact (reduces_nameRest hinner _ before).of_firm (firm_nameRest inner _)
  · have hreduces : Reduces false (enclosedRest inner) before (Yields before) := by
      refine (hinner.expression before).committed.deeper.andThen fun enclosed all hall => ?_
      exact (Basic.expect _).quiet.then fun _ _ _ _ => reduces_pure hall
    exact hreduces.of_firm (firm_enclosedRest inner)
  · exact ((Basic.fail _).quiet.failing true).reduces fun s value t hok => absurd (ok_failing hok) not_ok_fail

theorem builds_signed : Builds (signed inner) := by
  intro before
  refine Basic.peek.quiet.then fun _ next? _ _ => ?_
  split
  · have hreduces : Reduces false (negatedRest inner) before (Yields before) := by
      refine (hinner.signed before).committed.deeper.andThen fun operand all hall => reduces_operation ?_
      rw [Node.reductions_over (by decide), List.flatMap_singleton, hall, List.append_assoc]
    exact Basic.next.quiet.then fun _ _ _ _ => hreduces.of_firm (firm_negatedRest inner)
  · exact builds_atom hinner before

theorem builds_power : Builds (power inner) := by
  intro before
  refine (builds_signed hinner before).bind (fun base all hbase => ?_) fun _ base => firm_powerRest inner base
  refine Basic.peek.quiet.then fun _ next? _ _ => ?_
  split
  · refine Basic.next.quiet.then fun _ _ _ _ => ?_
    exact (hinner.power all).committed.deeper.andThen fun exponent all' hexponent => reduces_pair hbase hexponent
  · exact reduces_pure hbase

theorem builds_sum : Builds (sum inner) := builds_leftAssociative (builds_leftAssociative (builds_power hinner))

theorem builds_expression : Builds (expression inner) := by
  intro before
  refine (builds_sum hinner before).bind (fun left all hleft => ?_) fun _ left => firm_expressionRest inner left
  refine Basic.peek.quiet.then fun _ next? _ _ => ?_
  split
  · exact reduces_pure hleft
  · refine Basic.next.quiet.then fun _ _ _ _ => ?_
    exact (builds_sum hinner all).committed.andThen fun right all' hright => reduces_pair hleft hright

end

theorem builds_innerRules (levels : Nat) : (innerRules levels).Builds := by
  induction levels with
  | zero => exact ⟨fun _ => reduces_fail _, fun _ => reduces_fail _, fun _ => reduces_fail _⟩
  | succ levels ih => exact ⟨builds_expression ih, builds_power ih, builds_signed ih⟩

theorem builds_outerExpression : Builds outerExpression := builds_expression (builds_innerRules _)

/-! ### Statements -/

section

variable {before : List Node}

theorem reduces_declaration (kind : IdentifierKind) : Reduces false (declaration kind) before
    fun declared all => declared.1.reductions = [] ∧ Yields before declared.2 all := by
  refine (quiet_nameOf kind).then fun _ name _ hok => (Basic.expect _).quiet.then fun _ _ _ _ => ?_
  exact (builds_outerExpression before).committed.andThen fun value all hvalue =>
    reduces_pure ⟨reductions_of_nameOf hok, hvalue⟩

theorem reduces_named {operator : Operator} {name value : Node} {all : List Node} (hname : name.reductions = [])
    (hvalue : Yields before value all) : Reduces false (operation operator [name, value]) all (Yields before) :=
  reduces_pair (by rw [Yields, hname, List.append_nil]) hvalue

theorem reduces_functionDefinition : Reduces false functionDefinition before (Yields before) := by
  refine (Basic.expect _).quiet.then fun _ _ _ _ => (quiet_nameOf _).then fun _ name _ hok => ?_
  have hname := reductions_of_nameOf hok
  refine (Basic.expect _).quiet.then fun _ _ _ _ => ?_
  have hparameters : Reduces false (commaList (tentative (nameOf .variable))) before
      fun parameters all => parameters.flatMap Node.reductions = [] ∧ all = before := by
    refine reduces_commaList (fun parameters all hall => ?_) ⟨rfl, rfl⟩
    refine ((quiet_nameOf _).failing true).reduces fun s parameter t hok => ⟨?_, hall.2⟩
    rw [List.flatMap_append, hall.1, List.flatMap_singleton, List.nil_append]
    exact reductions_of_nameOf (ok_failing hok)
  refine hparameters.andThen fun parameters all hall => ?_
  obtain ⟨hempty, rfl⟩ := hall
  refine (Basic.expect _).quiet.then fun _ _ _ _ => (Basic.expect _).quiet.then fun _ _ _ _ => ?_
  refine (builds_outerExpression all).committed.andThen fun body middle hbody => ?_
  have hlist : Reduces false (operation .parameters parameters) middle (Yields middle) :=
    reduces_operation (by rw [Node.reductions_over (by decide), hempty, List.nil_append])
  refine hlist.andThen fun list last hlast => reduces_operation ?_
  rw [Node.reductions_function, hname, hlast, hbody]
  simp only [List.nil_append, List.append_assoc]

theorem reduces_assignmentTarget :
    Reduces true assignmentTarget before fun target all => target.reductions = [] ∧ all = before := by
  refine quiet_assignmentTarget.reduces fun s target t hok => ⟨?_, rfl⟩
  obtain ⟨name, u, -, huse⟩ := ok_bind hok
  obtain ⟨used, v, hused, hsign⟩ := ok_bind huse
  obtain ⟨_, w, -, hpure⟩ := ok_bind hsign
  obtain ⟨rfl, -⟩ := ok_pure hpure
  exact reductions_of_use hused

theorem reduces_statement : Reduces false statement before (Yields before) := by
  refine Basic.peek.quiet.then fun _ next? _ _ => ?_
  split
  · refine Basic.next.quiet.then fun _ _ _ _ => (reduces_declaration _).andThen fun declared all hdeclared => ?_
    exact (Basic.addConstant _).quiet.then fun _ _ _ _ => reduces_named hdeclared.1 hdeclared.2
  · refine Basic.next.quiet.then fun _ _ _ _ => (reduces_declaration _).andThen fun declared all hdeclared => ?_
    exact reduces_named hdeclared.1 hdeclared.2
  · exact reduces_functionDefinition
  · have htarget : Reduces false (optional assignmentTarget) before
        fun target? all => (∀ target ∈ target?, target.reductions = []) ∧ all = before :=
      reduces_assignmentTarget.optional (fun target all hall => ⟨by simpa using hall.1, hall.2⟩) ⟨by simp, rfl⟩
    refine htarget.andThen fun target? all hall => ?_
    obtain ⟨hempty, rfl⟩ := hall
    cases target? with
    | none => exact (builds_outerExpression all).untidy
    | some target =>
        exact (builds_outerExpression all).committed.andThen fun value all' hvalue => reduces_named (hempty target rfl) hvalue
  · exact (builds_outerExpression before).untidy

end

/-! ### Units -/

theorem reduces_moreStatements (rounds : List (Spanned Token)) {reversed before : List Node}
    (h : before = reversed.reverse.flatMap Node.reductions) :
    Reduces false (moreStatements rounds reversed) before fun statements all => all = statements.flatMap Node.reductions := by
  induction rounds generalizing reversed before with
  | nil => exact reduces_pure h
  | cons round rounds ih =>
      refine Basic.peek.quiet.then fun _ next? _ _ => ?_
      split
      · exact reduces_pure h
      · refine Basic.next.quiet.then fun _ _ _ _ => Basic.peek.quiet.then fun _ next? _ _ => ?_
        cases next? with
        | none => exact reduces_pure h
        | some token =>
            refine reduces_statement.andThen fun node all hnode => ih ?_
            rw [hnode, h, List.reverse_cons, List.flatMap_append, List.flatMap_singleton]
      · exact Basic.next.quiet.then fun _ _ _ _ => reduces_fail _

/-- **A unit builds the operations of its tree, in their order, and gives up no attempt in which it has built one.** -/
theorem reduces_unit : Reduces false unit [] (Yields []) := by
  refine reduces_statement.andThen fun first all hfirst => Basic.tokensLeft.quiet.then fun _ rounds _ _ => ?_
  have hall : all = [first].reverse.flatMap Node.reductions := by simpa [Yields] using hfirst
  refine (reduces_moreStatements rounds hall).andThen fun statements all' hall' => ?_
  split
  · rename_i only
    exact reduces_pure (by rw [Yields, hall', List.flatMap_singleton, List.nil_append])
  · apply reduces_operation
    rw [Node.reductions_over (by decide), hall', List.nil_append]

end Parser

end FormulaCompiler
