import FormulaCompiler.Proofs.Grammar.Leaves
import FormulaCompiler.Proofs.Parser.Careful

/-!
# What the names of a unit stand for

Every identifier in a tree has a role, which is where it stands: as the name of a declaration or of a
function, as a parameter, as the callee of a call, or in any other place, where it is used. Main statement: in
the tree of any accepted tokens each identifier has the kind of its role, and a name that is used is a
constant if and only if a strictly earlier statement declares it as one (`kind_eq_of_occurs`). Nothing else
about the order of statements, and nothing that the parser has tried and given up, has any influence.
-/

namespace FormulaCompiler

/-- Where an identifier stands in a tree. -/
inductive Role where
  | constantName
  | variableName
  | functionName
  | parameter
  | callee
  | use
  deriving DecidableEq

/-- The kind of an identifier in a role. The name of a use may have been declared `constant`. -/
def Role.kind (constant : Bool) : Role → IdentifierKind
  | constantName => .constant
  | variableName => .variable
  | functionName => .function
  | parameter => .variable
  | callee => .function
  | use => if constant then .constant else .variable

/-- The role of an identifier that is the operand of an operation at an index. -/
def OperatorCode.roleAt (code : OperatorCode) (index : Nat) : Role :=
  match Operator.ofCode? code, index with
  | some .defineConst, 0 => .constantName
  | some .defineLet, 0 => .variableName
  | some .function, 0 => .functionName
  | some .parameters, _ => .parameter
  | some .call, 0 => .callee
  | _, _ => .use

/-- An identifier as it stands in a tree. -/
structure Occurrence where
  role : Role
  kind : IdentifierKind
  name : Identifier
  deriving DecidableEq

namespace Node

mutual

/-- All identifiers of a tree, given the role of the tree itself. -/
def occurrences (role : Role) : Node → List Occurrence
  | number _ _ => []
  | identifier kind name => [⟨role, kind, name⟩]
  | operation code operands _ => operandsOccurrences code 0 operands

/-- All identifiers of the operands of an operation from an index on. -/
def operandsOccurrences (code : OperatorCode) (index : Nat) : List Node → List Occurrence
  | [] => []
  | operand :: operands =>
      operand.occurrences (code.roleAt index) ++ operandsOccurrences code (index + 1) operands

end

/-- The statements of a unit: the operands of a sequence, or else the unit itself. -/
def statements : Node → List Node
  | operation code operands height =>
      if code = Operator.sequence.code then operands else [operation code operands height]
  | node => [node]

/-- Whether a node is a name. The case of letters does not matter. -/
def spells (name : Identifier) : Node → Bool
  | identifier _ found => found.key == name.key
  | _ => false

/-- Whether a statement declares a name constant. -/
def declaresConstant (name : Identifier) : Node → Bool
  | operation code operands _ => code = Operator.defineConst.code && operands.head?.any (spells name)
  | _ => false

/-! ### Identifiers of operations -/

theorem operandsOccurrences_of_role {code : OperatorCode} {role : Role} {index : Nat} (operands : List Node)
    (hrole : ∀ i, index ≤ i → code.roleAt i = role) :
    operandsOccurrences code index operands = operands.flatMap (occurrences role) := by
  induction operands generalizing index with
  | nil => rw [operandsOccurrences, List.flatMap_nil]
  | cons operand operands ih =>
      rw [operandsOccurrences, hrole index (Nat.le_refl _), ih fun i hi => hrole i (by omega), List.flatMap_cons]

/-- The operands of most operators are all used. -/
theorem occurrences_over_of_use {operator : Operator} (role : Role) (operands : List Node)
    (hrole : ∀ index, operator.code.roleAt index = .use) :
    (Node.over operator operands).occurrences role = operands.flatMap (occurrences .use) := by
  rw [Node.over, occurrences, operandsOccurrences_of_role operands fun index _ => hrole index]

theorem occurrences_call (role : Role) (kind : IdentifierKind) (callee : Identifier) (arguments : List Node) :
    (Node.over .call (identifier kind callee :: arguments)).occurrences role =
      ⟨.callee, kind, callee⟩ :: arguments.flatMap (occurrences .use) := by
  have hrole : ∀ i, 1 ≤ i → Operator.call.code.roleAt i = .use := by
    intro i hi
    obtain ⟨i, rfl⟩ : ∃ j, i = j + 1 := ⟨i - 1, by omega⟩
    rfl
  rw [Node.over, occurrences, operandsOccurrences, operandsOccurrences_of_role arguments hrole]
  rfl

theorem occurrences_parameters (role : Role) (parameters : List Identifier) :
    (Node.over .parameters (parameters.map (identifier .variable))).occurrences role =
      parameters.map fun name => ⟨.parameter, .variable, name⟩ := by
  rw [Node.over, occurrences, operandsOccurrences_of_role _ fun _ _ => rfl, List.flatMap_map]
  exact List.map_eq_flatMap.symm

theorem occurrences_bound (role : Role) (binding : Binding) (kind : IdentifierKind) (name : Identifier)
    (value : Node) :
    (Node.over binding.operator [identifier kind name, value]).occurrences role =
      ⟨binding.operator.code.roleAt 0, kind, name⟩ :: value.occurrences .use := by
  cases binding <;> exact congrArg (_ :: ·) (List.append_nil _)

theorem occurrences_function (role : Role) (kind : IdentifierKind) (name : Identifier) (parameters body : Node) :
    (Node.over .function [identifier kind name, parameters, body]).occurrences role =
      ⟨.functionName, kind, name⟩ :: (parameters.occurrences .use ++ body.occurrences .use) :=
  congrArg (fun last => _ :: (parameters.occurrences .use ++ last)) (List.append_nil _)

end Node

/-- Whether each identifier of a tree that is used has the kind of its role, after some names have been declared
constant. -/
def Node.Classified (constants : List Identifier) (node : Node) : Prop :=
  ∀ occurrence ∈ node.occurrences .use, occurrence.kind = occurrence.role.kind (constants.contains occurrence.name)

/-! ### Phrases -/

theorem BinaryMark.roleAt {tier : Tier} (mark : BinaryMark tier) (index : Nat) :
    mark.operator.code.roleAt index = .use := by
  cases mark <;> rfl

theorem Node.classified_over {operator : Operator} {constants : List Identifier} {operands : List Node}
    (hrole : ∀ index, operator.code.roleAt index = .use)
    (hoperands : ∀ operand ∈ operands, operand.Classified constants) :
    (Node.over operator operands).Classified constants := by
  intro occurrence hmem
  rw [occurrences_over_of_use _ _ hrole] at hmem
  obtain ⟨operand, hoperand, hmem⟩ := List.mem_flatMap.1 hmem
  exact hoperands operand hoperand occurrence hmem

theorem Node.classified_call {constants : List Identifier} {callee : Identifier} {arguments : List Node}
    (harguments : ∀ argument ∈ arguments, argument.Classified constants) :
    (Node.over .call (.identifier .function callee :: arguments)).Classified constants := by
  intro occurrence hmem
  rw [occurrences_call, List.mem_cons] at hmem
  obtain rfl | hmem := hmem
  · rfl
  · obtain ⟨argument, hargument, hmem⟩ := List.mem_flatMap.1 hmem
    exact harguments argument hargument occurrence hmem

theorem Node.classified_use (constants : List Identifier) (name : Identifier) :
    (Node.identifier (name.kindOfUse constants) name).Classified constants := by
  intro occurrence hmem
  rw [occurrences, List.mem_singleton] at hmem
  rw [hmem]
  rfl

/-- In the tree of a phrase every identifier is classified. -/
theorem Phrase.classified_tree (constants : List Identifier) {c : Category} (phrase : Phrase c) :
    c.Holds (Node.Classified constants) (phrase.tree constants) := by
  have hpair {operator : Operator} {left right : Node} (hrole : ∀ index, operator.code.roleAt index = .use)
      (hleft : left.Classified constants) (hright : right.Classified constants) :
      (Node.over operator [left, right]).Classified constants := by
    apply Node.classified_over hrole
    rw [List.forall_mem_cons, List.forall_mem_singleton]
    exact ⟨hleft, hright⟩
  induction phrase with
  | number value => exact fun _ hmem => absurd hmem (by simp [tree, Node.ofNumber, Node.occurrences])
  | name used => exact Node.classified_use constants used
  | bareCall callee => exact Node.classified_call (by simp)
  | call callee arguments ih => exact Node.classified_call ih
  | enclosed inner ih => exact ih
  | ofAtom atom ih => exact ih
  | negated operand ih =>
      apply Node.classified_over (fun _ => rfl)
      rw [List.forall_mem_singleton]
      exact ih
  | ofSigned base ih => exact ih
  | raised base exponent ihBase ihExponent => exact hpair (fun _ => rfl) ihBase ihExponent
  | ofPower first ih => exact ih
  | multiplied left mark right ihLeft ihRight => exact hpair mark.roleAt ihLeft ihRight
  | ofProduct first ih => exact ih
  | added left mark right ihLeft ihRight => exact hpair mark.roleAt ihLeft ihRight
  | ofSum sum ih => exact ih
  | compared left mark right ihLeft ihRight => exact hpair mark.roleAt ihLeft ihRight
  | argument value ih =>
      show ∀ node ∈ [_], Node.Classified constants node
      rw [List.forall_mem_singleton]
      exact ih
  | furtherArgument before value ihBefore ihValue =>
      show ∀ node ∈ _ ++ [_], Node.Classified constants node
      rw [List.forall_mem_append, List.forall_mem_singleton]
      exact ⟨ihBefore, ihValue⟩

/-- Whether a tree is one statement and declares nothing. -/
def Node.Bare (node : Node) : Prop := node.statements = [node] ∧ ∀ name, node.declaresConstant name = false

theorem Phrase.bare_tree (constants : List Identifier) {c : Category} (phrase : Phrase c) :
    c.Holds Node.Bare (phrase.tree constants) := by
  induction phrase with
  | number value => exact ⟨rfl, fun _ => rfl⟩
  | name used => exact ⟨rfl, fun _ => rfl⟩
  | bareCall callee => exact ⟨rfl, fun _ => rfl⟩
  | call callee arguments ih => exact ⟨rfl, fun _ => rfl⟩
  | enclosed inner ih => exact ih
  | ofAtom atom ih => exact ih
  | negated operand ih => exact ⟨rfl, fun _ => rfl⟩
  | ofSigned base ih => exact ih
  | raised base exponent ihBase ihExponent => exact ⟨rfl, fun _ => rfl⟩
  | ofPower first ih => exact ih
  | multiplied left mark right ihLeft ihRight => cases mark <;> exact ⟨rfl, fun _ => rfl⟩
  | ofProduct first ih => exact ih
  | added left mark right ihLeft ihRight => cases mark <;> exact ⟨rfl, fun _ => rfl⟩
  | ofSum sum ih => exact ih
  | compared left mark right ihLeft ihRight => cases mark <;> exact ⟨rfl, fun _ => rfl⟩
  | argument value ih =>
      show ∀ node ∈ [_], Node.Bare node
      rw [List.forall_mem_singleton]
      exact ih
  | furtherArgument before value ihBefore ihValue =>
      show ∀ node ∈ _ ++ [_], Node.Bare node
      rw [List.forall_mem_append, List.forall_mem_singleton]
      exact ⟨ihBefore, ihValue⟩

/-! ### Statements -/

theorem Statement.statements_tree (constants : List Identifier) (statement : Statement) :
    (statement.tree constants).statements = [statement.tree constants] := by
  cases statement with
  | bound binding name value => cases binding <;> rfl
  | function name parameters body => rfl
  | assigned target value => rfl
  | bare value => exact (value.bare_tree constants).1

/-- A statement adds to the constants what its tree declares. -/
theorem Statement.contains_declare (constants : List Identifier) (statement : Statement) (name : Identifier) :
    (statement.declare constants).contains name =
      (constants.contains name || (statement.tree constants).declaresConstant name) := by
  cases statement with
  | bound binding declared value =>
      cases binding with
      | constant =>
          have hsame : (name == declared) = (declared.key == name.key) := BEq.comm (α := String)
          show (declared :: constants).contains name = (constants.contains name || (declared.key == name.key))
          rw [List.contains_cons, hsame, Bool.or_comm]
      | _ => exact (Bool.or_false _).symm
  | function name parameters body => exact (Bool.or_false _).symm
  | assigned target value => exact (Bool.or_false _).symm
  | bare value =>
      show constants.contains name = (constants.contains name || Node.declaresConstant name (value.tree constants))
      rw [(value.bare_tree constants).2, Bool.or_false]

theorem Statement.classified_tree (constants : List Identifier) (statement : Statement) :
    (statement.tree constants).Classified constants := by
  intro occurrence hmem
  cases statement with
  | bound binding name value =>
      have hvalue : (Phrase.tree constants value).Classified constants := value.classified_tree constants
      rw [tree, Node.occurrences_bound, List.mem_cons] at hmem
      obtain rfl | hmem := hmem
      · cases binding <;> rfl
      · exact hvalue occurrence hmem
  | function name parameters body =>
      have hbody : (Phrase.tree constants body).Classified constants := body.classified_tree constants
      rw [tree, Node.occurrences_function, List.mem_cons, List.mem_append, Node.occurrences_parameters] at hmem
      obtain rfl | hmem | hmem := hmem
      · rfl
      · obtain ⟨parameter, -, rfl⟩ := List.mem_map.1 hmem
        rfl
      · exact hbody occurrence hmem
  | assigned target value =>
      refine Node.classified_over (fun _ => rfl) ?_ occurrence hmem
      rw [List.forall_mem_cons, List.forall_mem_singleton]
      exact ⟨Node.classified_use constants target, value.classified_tree constants⟩
  | bare value => exact value.classified_tree constants occurrence hmem

/-- In each statement the constants are those that were known before all statements and those that the
statements in front of it declare. -/
theorem Statement.kind_of_mem_trees {constants : List Identifier} {statements : List Statement} {index : Nat}
    {tree : Node} (htree : (trees constants statements)[index]? = some tree) {occurrence : Occurrence}
    (hmem : occurrence ∈ tree.occurrences .use) :
    occurrence.kind = occurrence.role.kind (constants.contains occurrence.name ||
      ((trees constants statements).take index).any (Node.declaresConstant occurrence.name)) := by
  induction statements generalizing constants index with
  | nil => cases htree
  | cons statement statements ih =>
      rw [trees] at htree ⊢
      cases index with
      | zero =>
          rw [List.getElem?_cons_zero, Option.some.injEq] at htree
          subst htree
          rw [List.take_zero, List.any_nil, Bool.or_false]
          exact statement.classified_tree constants occurrence hmem
      | succ index =>
          rw [List.getElem?_cons_succ] at htree
          rw [List.take_succ_cons, List.any_cons, ← Bool.or_assoc, ← statement.contains_declare]
          exact ih htree

/-! ### Units -/

theorem Sentence.statements_tree (sentence : Sentence) :
    sentence.tree.statements = Statement.trees [] (sentence.first :: sentence.others) := by
  obtain ⟨first, others, trailing⟩ := sentence
  cases others with
  | nil => exact first.statements_tree []
  | cons second others => rfl

namespace Parser

/-- **An identifier has the kind of its role**, and a name that is used is a constant exactly if an earlier
statement declares it as one. -/
theorem kind_eq_of_occurs {start : Span} {tokens : List (Spanned Token)} {traced : Bool} {log : Log} {node : Node}
    (hparse : (parse start tokens traced log).1 = .ok node) {index : Nat} {statement : Node}
    (hstatement : node.statements[index]? = some statement) {occurrence : Occurrence}
    (hmem : occurrence ∈ statement.occurrences .use) :
    occurrence.kind =
      occurrence.role.kind ((node.statements.take index).any (Node.declaresConstant occurrence.name)) := by
  obtain ⟨sentence, -, -, rfl, -⟩ := exists_sentence_of_parse (named_of_parse hparse) hparse
  rw [sentence.statements_tree] at hstatement ⊢
  exact Statement.kind_of_mem_trees hstatement hmem

/-- The derivation of `const k = k; fn k(k) = k(K)`. -/
def redeclared : Sentence :=
  ⟨.bound .constant ⟨"k"⟩ (ofAtom (.name ⟨"k"⟩)),
    [.function ⟨"k"⟩ [⟨"k"⟩] (ofAtom (.call ⟨"k"⟩ (.argument (ofAtom (.name ⟨"K"⟩)))))], false⟩
where
  ofAtom (atom : Phrase .atom) : Phrase .expression :=
    .ofSum (.ofProduct (.ofPower (.ofSigned (.ofAtom atom))))

def redeclaredConstant : Node := .over .defineConst [.identifier .constant ⟨"k"⟩, .identifier .variable ⟨"k"⟩]

def redeclaredFunction : Node :=
  .over .function [.identifier .function ⟨"k"⟩, .over .parameters [.identifier .variable ⟨"k"⟩],
    .over .call [.identifier .function ⟨"k"⟩, .identifier .constant ⟨"K"⟩]]

theorem tree_redeclared : redeclared.tree = .over .sequence [redeclaredConstant, redeclaredFunction] := by
  have hkeys : (⟨"K"⟩ : Identifier).key = (⟨"k"⟩ : Identifier).key := by
    rw [Identifier.key, Identifier.key, ← String.toList_inj, String.toList_map, String.toList_map]
    decide
  have huse : (⟨"K"⟩ : Identifier).kindOfUse [⟨"k"⟩] = .constant := by
    apply if_pos
    rw [List.contains_cons, Bool.or_eq_true]
    exact .inl (decide_eq_true hkeys)
  show Node.over .sequence [redeclaredConstant, .over .function [_, _, .over .call [_,
    .identifier ((⟨"K"⟩ : Identifier).kindOfUse [⟨"k"⟩]) ⟨"K"⟩]]] = _
  rw [huse]
  rfl

/-- A constant whose own value is a variable of its name is not undone by a function that has the name as its
own and as its parameter. -/
theorem kind_eq_of_occurs_redeclared :
    (parse default (inOnePlace redeclared.tokens) false #[]).1 =
      .ok (.over .sequence [redeclaredConstant, redeclaredFunction]) ∧
    ⟨.use, .constant, ⟨"K"⟩⟩ ∈ redeclaredFunction.occurrences .use ∧
    IdentifierKind.constant = Role.use.kind ([redeclaredConstant].any (Node.declaresConstant ⟨"K"⟩)) := by
  have hnamed : ∀ token ∈ inOnePlace redeclared.tokens, token.value.Named := by
    simp [inOnePlace, redeclared, Sentence.tokens, seriesTokens, Statement.tokens, parameterTokens, Phrase.tokens,
      redeclared.ofAtom, Token.Named]
  have hparse : (parse default (inOnePlace redeclared.tokens) false #[]).1 =
      .ok (.over .sequence [redeclaredConstant, redeclaredFunction]) := by
    rw [← tree_redeclared]
    refine (parse_sentence default false #[] (valuesOf_inOnePlace _).symm hnamed).1 ⟨by decide, ?_⟩
    rw [tree_redeclared]
    decide
  have hstatement : (Node.over .sequence [redeclaredConstant, redeclaredFunction]).statements[1]? =
      some redeclaredFunction := rfl
  have hmem : ⟨.use, .constant, ⟨"K"⟩⟩ ∈ redeclaredFunction.occurrences .use := by decide
  exact ⟨hparse, hmem, kind_eq_of_occurs hparse hstatement hmem⟩

end Parser

end FormulaCompiler
