import FormulaCompiler.Proofs.Printing

/-!
# The operands of a listing

The numbers and names of a source are the leaves of its tree, and each leaf has a line of its own in the listing.
Parsing puts the operands of an operation side by side in the order in which they have been read, and a listing goes
through the tree in post-order; so the lines of the leaves are, from top to bottom, the numbers and names of the source
(`leafLines_text`). This is a law of conservation: it says at once that no operand is lost, written twice or moved.

What a line shows is read from the line alone, by its opcode, and in particular without the tree.
-/

namespace FormulaCompiler

open Lexer (tokensOf)

/-- Whether a token is a number or a name. -/
def Token.isOperand : Token → Bool
  | number _ => true
  | identifier _ => true
  | _ => false

section

variable (name : Identifier) (word : Keyword) (mark : Symbol)

@[simp] theorem Token.isOperand_identifier : (identifier name).isOperand = true := rfl

@[simp] theorem Token.isOperand_keyword : (keyword word).isOperand = false := rfl

@[simp] theorem Token.isOperand_symbol : (symbol mark).isOperand = false := rfl

end

namespace Node

mutual

/-- The numbers and names of a tree, from left to right. -/
def leaves : Node → List Token
  | number value _ => [.number value]
  | identifier _ name => [.identifier name]
  | operation _ operands _ => operandsLeaves operands

/-- The numbers and names of trees that stand side by side. -/
def operandsLeaves : List Node → List Token
  | [] => []
  | operand :: operands => operand.leaves ++ operandsLeaves operands

end

theorem operandsLeaves_eq_flatMap (operands : List Node) : operandsLeaves operands = operands.flatMap leaves := by
  induction operands with
  | nil => rfl
  | cons operand operands ih => rw [operandsLeaves, ih, List.flatMap_cons]

theorem leaves_over (operator : Operator) (operands : List Node) :
    (Node.over operator operands).leaves = operands.flatMap leaves := by
  rw [Node.over, leaves, operandsLeaves_eq_flatMap]

end Node

/-! ### From tokens to leaves -/

/-- The numbers and names of what a phrase of a category stands for. -/
def Category.leavesOf : (c : Category) → c.Value → List Token
  | atom, node => node.leaves
  | signed, node => node.leaves
  | power, node => node.leaves
  | product, node => node.leaves
  | sum, node => node.leaves
  | expression, node => node.leaves
  | arguments, nodes => nodes.flatMap Node.leaves

/-- The leaves of a phrase are its numbers and names. -/
theorem Phrase.leavesOf_tree (constants : List Identifier) {c : Category} (phrase : Phrase c) :
    c.leavesOf (phrase.tree constants) = phrase.tokens.filter Token.isOperand := by
  -- The operator between two operands is neither a number nor a name.
  have hpair (operator : Operator) (mark : Symbol) {left right : Node} {before after : List Token}
      (hleft : left.leaves = before.filter Token.isOperand) (hright : right.leaves = after.filter Token.isOperand) :
      (Node.over operator [left, right]).leaves = (before ++ .symbol mark :: after).filter Token.isOperand := by
    rw [Node.leaves_over, List.filter_append, List.filter_cons_of_neg (by simp), ← hleft, ← hright]
    simp
  induction phrase with
  | number value => rfl
  | name used => rfl
  | bareCall callee => rfl
  | call callee arguments ih =>
      show (Node.over .call _).leaves = _
      rw [Node.leaves_over, List.flatMap_cons]
      change _ ++ Category.arguments.leavesOf (arguments.tree constants) = _
      rw [ih]
      simp [tokens, List.filter_cons, Node.leaves]
  | enclosed inner ih =>
      refine ih.trans ?_
      simp [tokens]
  | ofAtom atom ih => exact ih
  | negated operand ih =>
      show (Node.over .negate _).leaves = _
      rw [Node.leaves_over, List.flatMap_singleton]
      exact ih
  | ofSigned base ih => exact ih
  | raised base exponent ihBase ihExponent => exact hpair .power .caret ihBase ihExponent
  | ofPower first ih => exact ih
  | multiplied left mark right ihLeft ihRight => exact hpair mark.operator mark.symbol ihLeft ihRight
  | ofProduct first ih => exact ih
  | added left mark right ihLeft ihRight => exact hpair mark.operator mark.symbol ihLeft ihRight
  | ofSum sum ih => exact ih
  | compared left mark right ihLeft ihRight => exact hpair mark.operator mark.symbol ihLeft ihRight
  | argument value ih =>
      show [_].flatMap Node.leaves = _
      rw [List.flatMap_singleton]
      exact ih
  | furtherArgument before value ihBefore ihValue =>
      show (_ ++ [_]).flatMap Node.leaves = _
      rw [List.flatMap_append, List.flatMap_singleton, tokens, List.filter_append,
        List.filter_cons_of_neg (by simp)]
      exact congrArg₂ (· ++ ·) ihBefore ihValue

theorem filter_isOperand_parameterTokens (parameters : List Identifier) :
    (parameterTokens parameters).filter Token.isOperand = parameters.map .identifier := by
  cases parameters with
  | nil => rfl
  | cons first others =>
      have hothers : (others.flatMap fun name => [Token.symbol .comma, .identifier name]).filter Token.isOperand =
          others.map .identifier := by
        rw [List.filter_flatMap]
        exact List.map_eq_flatMap.symm
      rw [parameterTokens, List.filter_cons_of_pos rfl, hothers, List.map_cons]

theorem Statement.leaves_tree (constants : List Identifier) (statement : Statement) :
    (statement.tree constants).leaves = statement.tokens.filter Token.isOperand := by
  have hvalue (value : Phrase .expression) : (value.tree constants : Node).leaves = value.tokens.filter Token.isOperand :=
    value.leavesOf_tree constants
  cases statement with
  | bound binding name value =>
      rw [tree, Node.leaves_over]
      simp [tokens, List.filter_cons, Node.leaves, hvalue]
  | function name parameters body =>
      have hparameters : (Node.over .parameters (parameters.map (.identifier .variable))).leaves =
          (parameterTokens parameters).filter Token.isOperand := by
        rw [Node.leaves_over, filter_isOperand_parameterTokens, List.flatMap_map]
        exact List.map_eq_flatMap.symm
      rw [tree, Node.leaves_over]
      simp [tokens, List.filter_cons, Node.leaves, hvalue, hparameters]
  | assigned target value =>
      rw [tree, Node.leaves_over]
      simp [tokens, List.filter_cons, Node.leaves, hvalue]
  | bare value => exact hvalue value

theorem Statement.leaves_trees (constants : List Identifier) (statements : List Statement) :
    (trees constants statements).flatMap Node.leaves =
      statements.flatMap fun statement => statement.tokens.filter Token.isOperand := by
  induction statements generalizing constants with
  | nil => rfl
  | cons statement statements ih =>
      rw [trees, List.flatMap_cons, List.flatMap_cons, statement.leaves_tree, ih]

/-- **The leaves of a unit are its numbers and names**, in order. -/
theorem Sentence.leaves_tree (sentence : Sentence) :
    sentence.tree.leaves = sentence.tokens.filter Token.isOperand := by
  have htokens : sentence.tokens.filter Token.isOperand =
      (sentence.first :: sentence.others).flatMap fun statement => statement.tokens.filter Token.isOperand := by
    have hend : (if sentence.trailing then [Token.symbol .semicolon] else []).filter Token.isOperand = [] := by
      split <;> rfl
    rw [tokens, seriesTokens, List.filter_append, List.filter_append, hend, List.append_nil, List.filter_flatMap]
    rfl
  rw [htokens, ← Statement.leaves_trees [], tree]
  split
  · rename_i only honly
    rw [honly, List.flatMap_singleton]
  · rw [Node.leaves_over]

/-! ### From leaves to lines -/

/-- The number or name that an instruction pushes or loads. -/
def Instruction.leaf? : Instruction → Option Token
  | push value _ => some (.number value)
  | load _ name => some (.identifier name)
  | perform _ _ => none

mutual

theorem Node.filterMap_leaf?_instructions (node : Node) : node.instructions.filterMap Instruction.leaf? = node.leaves := by
  cases node with
  | number value kind => rfl
  | identifier kind name => rfl
  | operation code operands height =>
      rw [instructions, List.filterMap_append, filterMap_leaf?_operandsInstructions operands, leaves]
      exact List.append_nil _

theorem Node.filterMap_leaf?_operandsInstructions (operands : List Node) :
    (operandsInstructions operands).filterMap Instruction.leaf? = operandsLeaves operands := by
  cases operands with
  | nil => rfl
  | cons operand operands =>
      rw [operandsInstructions, List.filterMap_append, operand.filterMap_leaf?_instructions,
        filterMap_leaf?_operandsInstructions operands, operandsLeaves]

end

namespace Listing

/-- The opcodes of the instructions that push a number or load a name. -/
def leafOpcodes : List String := ["pushi", "pushd", "loadc", "load", "ref"]

/-- Whether a line of a listing has the opcode of a leaf. -/
def isLeafLine : List Char → Bool
  | '\t' :: columns =>
      leafOpcodes.contains (String.ofList ((columns.take Instruction.opcodeWidth).takeWhile (· ≠ ' ')))
  | _ => false

/-- The number or name that a line of a listing shows. -/
def leafOfLine? (line : List Char) : Option Token := (Instruction.ofLine? line).bind Instruction.leaf?

/-- What the lines of the leaves show, from top to bottom. -/
def leavesShown (lines : List (List Char)) : List (Option Token) := (lines.filter isLeafLine).map leafOfLine?

variable {node : Node} {unit : String}

theorem leavesShown_append (before after : List (List Char)) :
    leavesShown (before ++ after) = leavesShown before ++ leavesShown after := by
  rw [leavesShown, List.filter_append, List.map_append]
  rfl

theorem isLeafLine_text (instruction : Instruction) : isLeafLine instruction.text.toList = instruction.leaf?.isSome := by
  obtain ⟨columns, htext, hopcode, -⟩ := instruction.exists_columns
  rw [htext, isLeafLine, hopcode]
  cases instruction with
  | push value kind => cases kind <;> rfl
  | load kind name => cases kind <;> rfl
  | perform code arity =>
      rw [Instruction.opcode]
      cases Operator.ofCode? code with
      | none => rfl
      | some operator => cases operator <;> rfl

theorem leavesShown_instructions {instructions : List Instruction}
    (hprintable : ∀ instruction ∈ instructions, instruction.Printable) :
    leavesShown (linesOf instructions) = (instructions.filterMap Instruction.leaf?).map some := by
  induction instructions with
  | nil => rfl
  | cons instruction instructions ih =>
      rw [List.forall_mem_cons] at hprintable
      have hread : leafOfLine? instruction.text.toList = instruction.leaf? := by
        rw [leafOfLine?, Instruction.ofLine?_text hprintable.1, Option.bind_some]
      rw [linesOf, List.map_cons, leavesShown, List.filter_cons, isLeafLine_text, List.filterMap_cons]
      cases hleaf : instruction.leaf? with
      | none => exact ih hprintable.2
      | some token =>
          rw [hleaf] at hread
          exact congrArg₂ List.cons hread (ih hprintable.2)

/-- The lines below the heading show the leaves of the tree. -/
theorem leavesShown_body (hprintable : node.Printable) :
    leavesShown (linesOf node.instructions ++ [['\t', 'r', 'e', 't']]) = node.leaves.map some := by
  have hreturn : leavesShown [['\t', 'r', 'e', 't']] = [] := by decide
  rw [← node.filterMap_leaf?_instructions, ← leavesShown_instructions (printable_instructions hprintable),
    leavesShown_append, hreturn, List.append_nil]

theorem isLeafLine_of_head {line : List Char} (hline : line.head? ≠ some '\t') : isLeafLine line = false := by
  cases line with
  | nil => rfl
  | cons c columns =>
      rw [isLeafLine]
      intro columns heq
      exact hline (congrArg List.head? heq)

/-- No line of the heading is taken for a leaf, unless the name of the unit begins with a tab. -/
theorem leavesShown_heading (hunit : unit.toList.head? ≠ some '\t') :
    leavesShown ((heading unit).map String.toList) = [] := by
  have hname : unit.toList.head?.getD ':' ≠ '\t' := by
    cases hfirst : unit.toList.head? with
    | none => decide
    | some c =>
        rintro rfl
        exact hunit hfirst
  have hheads : ∀ line ∈ (heading unit).map String.toList, line.head? ≠ some '\t' := by
    simp [heading, hname]
  rw [leavesShown, List.filter_eq_nil_iff.2 fun line hmem => by simp [isLeafLine_of_head (hheads line hmem)],
    List.map_nil]

/-- **The lines of the leaves show the numbers and names of the source**, in order and each once: first among the
lines below the heading, and then among all lines, if the heading keeps to its four lines and the name of the unit does
not begin with a tab. -/
theorem leafLines_text {source : Source} {start : Span} {scanning parsing : Bool}
    (h : (Parser.engine parsing start (Lexer.scan scanning source)).1 = .ok node) (unit : String) :
    (∃ body : List Char,
      (text unit node).toList = ((heading unit).map String.toList).flatMap (· ++ ['\n']) ++ body ∧
      leavesShown (Text.lines body) =
        ((valuesOf (tokensOf (Lexer.ofSource source).items)).filter Token.isOperand).map some) ∧
    ('\n' ∉ unit.toList → unit.toList.head? ≠ some '\t' →
      leavesShown (Text.lines (text unit node).toList) =
        ((valuesOf (tokensOf (Lexer.ofSource source).items)).filter Token.isOperand).map some) := by
  obtain ⟨-, hprintable⟩ := Parser.grown_and_printable_of_engine h
  obtain ⟨sentence, rfl, htokens, -⟩ := Parser.exists_sentence_of_engine source start scanning parsing h
  have hbody := leavesShown_body hprintable
  rw [← htokens, ← sentence.leaves_tree]
  constructor
  · refine ⟨(linesOf sentence.tree.instructions ++ [['\t', 'r', 'e', 't']]).flatMap (· ++ ['\n']), ?_, ?_⟩
    · rw [toList_text, map_toList_lines, List.flatMap_append]
    · rw [Text.lines_flatMap (newline_notMem_body hprintable), hbody]
  · intro hnewline htab
    rw [lines_text hnewline hprintable, map_toList_lines, leavesShown_append, leavesShown_heading htab, hbody,
      List.nil_append]

/-- The derivation of `fn f ( a , b ) = g ( 2 , - b )`. -/
def weighted : Sentence := ⟨.function ⟨"f"⟩ [⟨"a"⟩, ⟨"b"⟩] (loose (.ofAtom (.call ⟨"g"⟩ arguments))), [], false⟩
where
  loose (phrase : Phrase .signed) : Phrase .expression := .ofSum (.ofProduct (.ofPower (.ofSigned phrase)))
  arguments : Phrase .arguments :=
    .furtherArgument (.argument (loose (.ofAtom (.number (.ofInt 2))))) (loose (.negated (.ofAtom (.name ⟨"b"⟩))))

theorem engine_weighted :
    (Parser.engine false default (Lexer.scan false (.ofText "weighted" "fn f ( a , b ) = g ( 2 , - b )"))).1 =
      .ok weighted.tree := by
  have hwritten : written weighted.tokens = "fn f ( a , b ) = g ( 2 , - b )" := by decide +kernel
  have hname {c : Char} (hc : c.isAlpha = true) : (MaximalMunch.word [c]).Writable :=
    MaximalMunch.writable_word hc (List.forall_mem_nil _)
  have hnumber : (Token.number (.ofInt 2)).Writable := ⟨by decide +kernel, by decide +kernel⟩
  have hwritable : ∀ token ∈ weighted.tokens, token.Writable := by
    show ∀ token ∈ [.keyword .fnDecl, MaximalMunch.word ['f'], .symbol .openParen, MaximalMunch.word ['a'],
      .symbol .comma, MaximalMunch.word ['b'], .symbol .closeParen, .symbol .assign, MaximalMunch.word ['g'],
      .symbol .openParen, .number (.ofInt 2), .symbol .comma, .symbol .minus, MaximalMunch.word ['b'],
      .symbol .closeParen], token.Writable
    simp only [List.forall_mem_cons]
    exact ⟨trivial, hname rfl, trivial, hname rfl, trivial, hname rfl, trivial, trivial, hname rfl, trivial, hnumber,
      trivial, trivial, hname rfl, trivial, List.forall_mem_nil _⟩
  have hengine := Parser.engine_of_sentence default false false "weighted" hwritable (by decide) (by decide)
  rwa [hwritten] at hengine

/-- A function is declared with its parameters in between, and the leaves still come in the order of the source. -/
theorem leafLines_text_weighted :
    leavesShown (Text.lines (text "prog" weighted.tree).toList) =
      [some (.identifier ⟨"f"⟩), some (.identifier ⟨"a"⟩), some (.identifier ⟨"b"⟩), some (.identifier ⟨"g"⟩),
        some (.number (.ofInt 2)), some (.identifier ⟨"b"⟩)] := by
  have hleaves := (leafLines_text engine_weighted "prog").2 (by decide) (by decide)
  obtain ⟨other, htree, htokens, -⟩ := Parser.exists_sentence_of_engine _ default false false engine_weighted
  rw [← htokens, ← other.leaves_tree, htree] at hleaves
  exact hleaves

end Listing

end FormulaCompiler
