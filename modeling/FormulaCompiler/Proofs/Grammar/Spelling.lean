import FormulaCompiler.Proofs.Grammar.Sentence
import Mathlib.Order.MinMax

/-!
# Trees as tokens

`Node.spelling` writes a tree with as few parentheses as the grammar allows: an operand stands in parentheses
only where its category is looser than the place that it is in. The tree of a phrase is spelled with some of the
tokens of the phrase, which are a phrase that stands for the same tree and nests no deeper (`Phrase.fits`), and
likewise for sentences (`Sentence.exists_spelled`).
-/

namespace FormulaCompiler

/-! ### Spellings -/

namespace Category

variable {c tight loose : Category}

/-- How loosely a category binds: a phrase of one category is one of every looser category as well. -/
def looseness : Category → Nat
  | atom => 0
  | signed => 1
  | power => 2
  | product => 3
  | sum => 4
  | expression => 5
  | arguments => 6

/-- The category that consists of phrases of a category and of those that it has productions for. -/
def looser : Category → Category
  | atom => signed
  | signed => power
  | power => product
  | product => sum
  | sum => expression
  | expression => expression
  | arguments => arguments

theorem looseness_looser (h : c.looseness < 5) : c.looser.looseness = c.looseness + 1 := by
  cases c <;> first | rfl | contradiction

theorem looseness_injective (h : tight.looseness = loose.looseness) : tight = loose := by
  cases tight <;> cases loose <;> first | rfl | contradiction

end Category

/-- The tokens that a node is written as, and the tightest category that they are a phrase of. -/
structure Spelling where
  category : Category
  tokens : List Token

/-- A node where a phrase of a category has to stand, in parentheses if it binds more loosely. -/
def Spelling.within (spelling : Spelling) (c : Category) : List Token :=
  if spelling.category.looseness ≤ c.looseness then spelling.tokens
  else .symbol .openParen :: (spelling.tokens ++ [.symbol .closeParen])

namespace Spelling

variable {spelling : Spelling} {c tight loose : Category}

theorem within_of_le (h : spelling.category.looseness ≤ c.looseness) : spelling.within c = spelling.tokens := if_pos h

theorem within_of_lt (h : c.looseness < spelling.category.looseness) :
    spelling.within c = .symbol .openParen :: (spelling.tokens ++ [.symbol .closeParen]) := if_neg (Nat.not_le.2 h)

theorem tokens_sublist_within : List.Sublist spelling.tokens (spelling.within c) := by
  rw [within]
  split
  · exact List.Sublist.refl _
  · exact (List.sublist_append_left _ _).trans (List.sublist_cons_self _ _)

/-- A looser place needs no more parentheses. -/
theorem within_sublist (hle : tight.looseness ≤ loose.looseness) :
    List.Sublist (spelling.within loose) (spelling.within tight) := by
  rcases Nat.lt_or_ge loose.looseness spelling.category.looseness with hlt | hge
  · have heq : spelling.within loose = spelling.within tight := by
      rw [within_of_lt hlt, within_of_lt (Nat.lt_of_le_of_lt hle hlt)]
    exact heq ▸ List.Sublist.refl _
  · rw [within_of_le hge]
    exact tokens_sublist_within

end Spelling

/-- How an operation over two operands is written: the symbol between them, the category of the whole and those
that the operands have to be of. -/
structure BinaryForm where
  symbol : Symbol
  whole : Category
  left : Category
  right : Category

def Operator.binaryForm? : Operator → Option BinaryForm
  | power => some ⟨.caret, .power, .signed, .power⟩
  | multiply => some ⟨.times, .product, .product, .power⟩
  | divide => some ⟨.slash, .product, .product, .power⟩
  | modulo => some ⟨.percent, .product, .product, .power⟩
  | add => some ⟨.plus, .sum, .sum, .product⟩
  | subtract => some ⟨.minus, .sum, .sum, .product⟩
  | equal => some ⟨.equal, .expression, .sum, .sum⟩
  | notEqual => some ⟨.notEqual, .expression, .sum, .sum⟩
  | less => some ⟨.less, .expression, .sum, .sum⟩
  | lessOrEqual => some ⟨.lessOrEqual, .expression, .sum, .sum⟩
  | greater => some ⟨.greater, .expression, .sum, .sum⟩
  | greaterOrEqual => some ⟨.greaterOrEqual, .expression, .sum, .sum⟩
  | _ => none

/-- The tokens of each spelling with a symbol between them. -/
def separated (symbol : Symbol) (spellings : List Spelling) : List Token :=
  [Token.symbol symbol].intercalate (spellings.map Spelling.tokens)

/-- An operation over operands that are written already. What the grammar has no form for has no tokens. -/
def Spelling.ofOperation : Option Operator → List Spelling → Spelling
  | some .call, callee :: arguments =>
      ⟨.atom, callee.tokens ++ .symbol .openParen :: (separated .comma arguments ++ [.symbol .closeParen])⟩
  | some .negate, [operand] => ⟨.signed, .symbol .minus :: operand.within .signed⟩
  | some .defineConst, [name, value] =>
      ⟨.expression, .keyword .constDecl :: (name.tokens ++ .symbol .assign :: value.tokens)⟩
  | some .defineLet, [name, value] =>
      ⟨.expression, .keyword .letDecl :: (name.tokens ++ .symbol .assign :: value.tokens)⟩
  | some .assign, [target, value] => ⟨.expression, target.tokens ++ .symbol .assign :: value.tokens⟩
  | some .function, [name, parameters, body] =>
      ⟨.expression, .keyword .fnDecl :: (name.tokens ++ .symbol .openParen ::
        (parameters.tokens ++ .symbol .closeParen :: .symbol .assign :: body.tokens))⟩
  | some .parameters, names => ⟨.expression, separated .comma names⟩
  | some .sequence, statements => ⟨.expression, separated .semicolon statements⟩
  | some operator, [left, right] =>
      match operator.binaryForm? with
      | some form => ⟨form.whole, left.within form.left ++ .symbol form.symbol :: right.within form.right⟩
      | none => ⟨.expression, []⟩
  | _, _ => ⟨.expression, []⟩

mutual

/-- A tree as tokens, with parentheses only where an operand binds more loosely than its place allows. -/
def Node.spelling : Node → Spelling
  | .number value _ => ⟨.atom, [.number value]⟩
  | .identifier _ name => ⟨.atom, [.identifier name]⟩
  | .operation code operands _ => .ofOperation (Operator.ofCode? code) (Node.spellings operands)

def Node.spellings : List Node → List Spelling
  | [] => []
  | node :: nodes => node.spelling :: Node.spellings nodes

end

namespace Node

theorem spellings_eq_map (nodes : List Node) : spellings nodes = nodes.map spelling := by
  induction nodes with
  | nil => rfl
  | cons node nodes ih => rw [spellings, ih, List.map_cons]

theorem over_congr (operator : Operator) {left left' right right' : Node} (hleft : left = left')
    (hright : right = right') : Node.over operator [left, right] = Node.over operator [left', right'] := by
  rw [hleft, hright]

theorem spelling_over (operator : Operator) (operands : List Node) :
    (Node.over operator operands).spelling = .ofOperation (some operator) (operands.map spelling) := by
  rw [Node.over, spelling, Operator.ofCode?_code, spellings_eq_map]

theorem spelling_negate (operand : Node) :
    (Node.over .negate [operand]).spelling = ⟨.signed, .symbol .minus :: operand.spelling.within .signed⟩ :=
  spelling_over _ _

theorem spelling_power (base exponent : Node) : (Node.over .power [base, exponent]).spelling =
    ⟨.power, base.spelling.within .signed ++ .symbol .caret :: exponent.spelling.within .power⟩ :=
  spelling_over _ _

theorem spelling_product (mark : BinaryMark .product) (left right : Node) :
    (Node.over mark.operator [left, right]).spelling =
      ⟨.product, left.spelling.within .product ++ .symbol mark.symbol :: right.spelling.within .power⟩ := by
  cases mark <;> exact spelling_over _ _

theorem spelling_sum (mark : BinaryMark .sum) (left right : Node) : (Node.over mark.operator [left, right]).spelling =
    ⟨.sum, left.spelling.within .sum ++ .symbol mark.symbol :: right.spelling.within .product⟩ := by
  cases mark <;> exact spelling_over _ _

theorem spelling_comparison (mark : BinaryMark .comparison) (left right : Node) :
    (Node.over mark.operator [left, right]).spelling =
      ⟨.expression, left.spelling.within .sum ++ .symbol mark.symbol :: right.spelling.within .sum⟩ := by
  cases mark <;> exact spelling_over _ _

theorem spelling_call (callee : Node) (arguments : List Node) : (Node.over .call (callee :: arguments)).spelling =
    ⟨.atom, callee.spelling.tokens ++ .symbol .openParen ::
      (separated .comma (arguments.map spelling) ++ [.symbol .closeParen])⟩ :=
  spelling_over _ _

end Node

/-! ### Phrases of a spelling -/

/-- Whether what a phrase stands for is a node. -/
def Category.StandsFor : (c : Category) → c.Value → Node → Prop
  | atom, value, node => value = node
  | signed, value, node => value = node
  | power, value, node => value = node
  | product, value, node => value = node
  | sum, value, node => value = node
  | expression, value, node => value = node
  | arguments, _, _ => False

variable {constants : List Identifier} {c tight loose : Category} {node : Node} {tokens spelled : List Token}
  {nesting : Nat}

/-- Some tokens are a phrase that stands for a node and nests at most so deep. -/
def Spells (constants : List Identifier) (c : Category) (node : Node) (tokens : List Token) (nesting : Nat) : Prop :=
  ∃ phrase : Phrase c, c.StandsFor (phrase.tree constants) node ∧ phrase.tokens = tokens ∧ phrase.nesting ≤ nesting

namespace Spells

theorem mono (h : Spells constants c node tokens nesting) {deeper : Nat} (hle : nesting ≤ deeper) :
    Spells constants c node tokens deeper := by
  obtain ⟨phrase, hnode, htokens, hnesting⟩ := h
  exact ⟨phrase, hnode, htokens, Nat.le_trans hnesting hle⟩

theorem next (h : Spells constants c node tokens nesting) : Spells constants c.looser node tokens nesting := by
  cases c with
  | atom => exact h.imp' Phrase.ofAtom fun _ => id
  | signed => exact h.imp' Phrase.ofSigned fun _ => id
  | power => exact h.imp' Phrase.ofPower fun _ => id
  | product => exact h.imp' Phrase.ofProduct fun _ => id
  | sum => exact h.imp' Phrase.ofSum fun _ => id
  | expression => exact h
  | arguments => exact h

/-- A phrase is one of every looser category of expressions. -/
theorem widen (h : Spells constants tight node tokens nesting) (hle : tight.looseness ≤ loose.looseness)
    (hloose : loose.looseness ≤ 5) : Spells constants loose node tokens nesting := by
  obtain ⟨steps, hsteps⟩ := Nat.exists_eq_add_of_le hle
  induction steps generalizing tight with
  | zero =>
      obtain rfl := Category.looseness_injective hsteps
      exact h
  | succ steps ih =>
      have hstep : tight.looser.looseness = tight.looseness + 1 := Category.looseness_looser (by omega)
      exact ih h.next (by omega) (by omega)

/-- What stands for a single node is no argument list. -/
theorem looseness_le (h : Spells constants c node tokens nesting) : c.looseness ≤ 5 := by
  cases c with
  | arguments =>
      obtain ⟨phrase, hnode, -⟩ := h
      exact hnode.elim
  | _ => decide

theorem enclosed (h : Spells constants .expression node tokens nesting) :
    Spells constants .atom node (.symbol .openParen :: (tokens ++ [.symbol .closeParen])) (nesting + 1) := by
  obtain ⟨phrase, hnode, rfl, hnesting⟩ := h
  exact ⟨.enclosed phrase, hnode, rfl, Nat.succ_le_succ hnesting⟩

end Spells

/-- The spelling of a node is a phrase that nests no deeper than some tokens do, also where it has to be of a
category, and its tokens are among them. -/
structure Fitted (constants : List Identifier) (c : Category) (node : Node) (tokens : List Token) (nesting : Nat) :
    Prop where
  sublist : List.Sublist (node.spelling.within c) tokens
  spells : ∃ inner, Spells constants node.spelling.category node node.spelling.tokens inner ∧ inner ≤ nesting ∧
    (c.looseness < node.spelling.category.looseness → inner < nesting)

namespace Fitted

theorem of_spells (hspelling : node.spelling = ⟨c, spelled⟩) (h : Spells constants c node spelled nesting)
    (hsublist : List.Sublist spelled tokens) : Fitted constants c node tokens nesting := by
  have hcategory : node.spelling.category = c := by rw [hspelling]
  have htokens : node.spelling.tokens = spelled := by rw [hspelling]
  refine ⟨?_, nesting, ?_, Nat.le_refl _, fun hlt => ?_⟩
  · rwa [Spelling.within_of_le (Nat.le_of_eq (congrArg _ hcategory)), htokens]
  · rwa [hcategory, htokens]
  · rw [hcategory] at hlt
    exact absurd hlt (Nat.lt_irrefl _)

/-- The spelling of a node, in parentheses or not, is a phrase of the category that it has to be of. -/
theorem within (h : Fitted constants c node tokens nesting) (hc : c.looseness ≤ 5) :
    Spells constants c node (node.spelling.within c) nesting := by
  obtain ⟨-, inner, hspells, hle, hlt⟩ := h
  rcases Nat.lt_or_ge c.looseness node.spelling.category.looseness with hloose | htight
  · have hexpression : Spells constants .expression node node.spelling.tokens inner :=
      hspells.widen hspells.looseness_le (Nat.le_refl _)
    rw [Spelling.within_of_lt hloose]
    exact (hexpression.enclosed.widen (Nat.zero_le _) hc).mono (hlt hloose)
  · rw [Spelling.within_of_le htight]
    exact (hspells.widen htight hc).mono hle

theorem widen (h : Fitted constants tight node tokens nesting) (hle : tight.looseness ≤ loose.looseness) :
    Fitted constants loose node tokens nesting := by
  obtain ⟨hsublist, inner, hspells, hle', hlt⟩ := h
  exact ⟨(Spelling.within_sublist hle).trans hsublist, inner, hspells, hle', fun hloose => hlt (by omega)⟩

theorem enclosed (h : Fitted constants .expression node tokens nesting) :
    Fitted constants .atom node (.symbol .openParen :: (tokens ++ [.symbol .closeParen])) (nesting + 1) := by
  obtain ⟨hsublist, inner, hspells, hle, -⟩ := h
  have hexpression : node.spelling.category.looseness ≤ Category.expression.looseness := hspells.looseness_le
  rw [Spelling.within_of_le hexpression] at hsublist
  refine ⟨?_, inner, hspells, by omega, fun _ => by omega⟩
  rcases Nat.lt_or_ge Category.atom.looseness node.spelling.category.looseness with hloose | htight
  · rw [Spelling.within_of_lt hloose]
    exact (hsublist.append_right _).cons_cons _
  · rw [Spelling.within_of_le htight]
    exact hsublist.trans ((List.sublist_append_left _ _).trans (List.sublist_cons_self _ _))

theorem binary {left right : Node} {leftTokens rightTokens : List Token} {leftNesting rightNesting : Nat}
    {leftCategory rightCategory : Category} {mark : Symbol} (build : Phrase leftCategory → Phrase rightCategory → Phrase c)
    (hspelling : node.spelling =
      ⟨c, left.spelling.within leftCategory ++ .symbol mark :: right.spelling.within rightCategory⟩)
    (hleft : Fitted constants leftCategory left leftTokens leftNesting)
    (hright : Fitted constants rightCategory right rightTokens rightNesting)
    (hcategories : leftCategory.looseness ≤ 5 ∧ rightCategory.looseness ≤ 5)
    (hnode : ∀ first second, leftCategory.StandsFor (first.tree constants) left →
      rightCategory.StandsFor (second.tree constants) right → c.StandsFor ((build first second).tree constants) node)
    (htokens : ∀ first second, (build first second).tokens = first.tokens ++ .symbol mark :: second.tokens)
    (hnesting : ∀ first second, first.nesting ≤ leftNesting → second.nesting ≤ rightNesting →
      (build first second).nesting ≤ nesting) :
    Fitted constants c node (leftTokens ++ .symbol mark :: rightTokens) nesting := by
  obtain ⟨first, hfirst, hfirstTokens, hfirstNesting⟩ := hleft.within hcategories.1
  obtain ⟨second, hsecond, hsecondTokens, hsecondNesting⟩ := hright.within hcategories.2
  refine .of_spells hspelling ⟨build first second, hnode _ _ hfirst hsecond, ?_, hnesting _ _ hfirstNesting hsecondNesting⟩
    (hleft.sublist.append (hright.sublist.cons_cons _))
  rw [htokens, hfirstTokens, hsecondTokens]

/-- An expression is never in parentheses where it may be any expression. -/
theorem expression (h : Fitted constants .expression node tokens nesting) :
    ∃ phrase : Phrase .expression, phrase.tree constants = node ∧ phrase.tokens = node.spelling.tokens ∧
      phrase.nesting ≤ nesting ∧ List.Sublist phrase.tokens tokens := by
  obtain ⟨hsublist, inner, hspells, hle, -⟩ := h
  have hexpression : node.spelling.category.looseness ≤ Category.expression.looseness := hspells.looseness_le
  rw [Spelling.within_of_le hexpression] at hsublist
  obtain ⟨phrase, hnode, htokens, hnesting⟩ := hspells.widen hexpression (Nat.le_refl _)
  exact ⟨phrase, hnode, htokens, Nat.le_trans hnesting hle, htokens ▸ hsublist⟩

end Fitted

/-- The spellings of some nodes, with commas between them, are an argument list that nests no deeper than some
tokens do, and are among them. -/
def FittedArguments (constants : List Identifier) (nodes : List Node) (tokens : List Token) (nesting : Nat) : Prop :=
  ∃ phrase : Phrase .arguments, phrase.tree constants = nodes ∧
    phrase.tokens = separated .comma (nodes.map Node.spelling) ∧ phrase.nesting ≤ nesting ∧
    List.Sublist phrase.tokens tokens

/-- Whether what a phrase of a category stands for is written with no more than the tokens of the phrase. -/
def Category.Fits (constants : List Identifier) : (c : Category) → c.Value → List Token → Nat → Prop
  | atom, node => Fitted constants .atom node
  | signed, node => Fitted constants .signed node
  | power, node => Fitted constants .power node
  | product, node => Fitted constants .product node
  | sum, node => Fitted constants .sum node
  | expression, node => Fitted constants .expression node
  | arguments, nodes => FittedArguments constants nodes

theorem separated_cons (mark : Symbol) (first : Spelling) (others : List Spelling) :
    separated mark (first :: others) = first.tokens ++ others.flatMap fun other => .symbol mark :: other.tokens := by
  induction others generalizing first with
  | nil => exact List.intercalate_singleton.trans (List.append_nil _).symm
  | cons second others ih =>
      have hrest : [Token.symbol mark].intercalate (second.tokens :: others.map Spelling.tokens) = _ := ih second
      rw [separated, List.map_cons, List.map_cons, List.intercalate_cons_cons, hrest, List.append_assoc]
      rfl

theorem separated_append (mark : Symbol) {spellings : List Spelling} (hne : spellings ≠ []) (last : Spelling) :
    separated mark (spellings ++ [last]) = separated mark spellings ++ .symbol mark :: last.tokens := by
  obtain ⟨first, others, rfl⟩ := List.exists_cons_of_ne_nil hne
  rw [List.cons_append, separated_cons, separated_cons, List.flatMap_append, List.append_assoc, List.flatMap_singleton]

theorem Phrase.tree_arguments_ne_nil (constants : List Identifier) (arguments : Phrase .arguments) :
    arguments.tree constants ≠ [] := by
  cases arguments with
  | argument value => exact List.cons_ne_nil _ _
  | furtherArgument before value => exact List.append_ne_nil_of_right_ne_nil _ (List.cons_ne_nil _ _)

/-- The tree of a phrase is written with no more than the tokens of the phrase. -/
theorem Phrase.fits (constants : List Identifier) {c : Category} (phrase : Phrase c) :
    c.Fits constants (phrase.tree constants) phrase.tokens phrase.nesting := by
  induction phrase with
  | number value => exact Fitted.of_spells rfl ⟨.number value, rfl, rfl, Nat.le_refl _⟩ (List.Sublist.refl _)
  | name used => exact Fitted.of_spells rfl ⟨.name used, rfl, rfl, Nat.le_refl _⟩ (List.Sublist.refl _)
  | bareCall callee =>
      exact Fitted.of_spells (Node.spelling_call _ []) ⟨.bareCall callee, rfl, rfl, Nat.le_refl _⟩ (List.Sublist.refl _)
  | call callee arguments ih =>
      obtain ⟨phrase, htree, htokens, hnesting, hsublist⟩ : FittedArguments constants _ _ _ := ih
      refine Fitted.of_spells (Node.spelling_call _ _) ⟨.call callee phrase, ?_, ?_, Nat.succ_le_succ hnesting⟩ ?_
      · show Node.over .call (_ :: phrase.tree constants) = _
        rw [htree]
        rfl
      · rw [tokens, htokens]
        rfl
      · rw [← htokens]
        exact ((hsublist.append_right _).cons_cons _).cons_cons _
  | enclosed inner ih => exact Fitted.enclosed ih
  | ofAtom atom ih => exact Fitted.widen ih (by decide)
  | negated operand ih =>
      have ih : Fitted constants .signed _ _ _ := ih
      obtain ⟨phrase, hnode, htokens, hnesting⟩ := ih.within (by decide)
      have hnode : phrase.tree constants = operand.tree constants := hnode
      refine Fitted.of_spells (Node.spelling_negate _) ⟨.negated phrase, ?_, ?_, Nat.succ_le_succ hnesting⟩
        (ih.sublist.cons_cons _)
      · exact congrArg (fun node => Node.over .negate [node]) hnode
      · exact congrArg (_ :: ·) htokens
  | ofSigned base ih => exact Fitted.widen ih (by decide)
  | raised base exponent ihBase ihExponent =>
      refine Fitted.binary .raised (Node.spelling_power _ _) ihBase ihExponent (by decide)
        (fun _ _ => Node.over_congr .power) (fun _ _ => rfl) fun _ _ hbase hexponent => ?_
      exact max_le_max hbase (Nat.succ_le_succ hexponent)
  | ofPower first ih => exact Fitted.widen ih (by decide)
  | multiplied left mark right ihLeft ihRight =>
      exact Fitted.binary (.multiplied · mark ·) (Node.spelling_product mark _ _) ihLeft ihRight (by decide)
        (fun _ _ => Node.over_congr mark.operator) (fun _ _ => rfl) fun _ _ => max_le_max
  | ofProduct first ih => exact Fitted.widen ih (by decide)
  | added left mark right ihLeft ihRight =>
      exact Fitted.binary (.added · mark ·) (Node.spelling_sum mark _ _) ihLeft ihRight (by decide)
        (fun _ _ => Node.over_congr mark.operator) (fun _ _ => rfl) fun _ _ => max_le_max
  | ofSum sum ih => exact Fitted.widen ih (by decide)
  | compared left mark right ihLeft ihRight =>
      exact Fitted.binary (.compared · mark ·) (Node.spelling_comparison mark _ _) ihLeft ihRight (by decide)
        (fun _ _ => Node.over_congr mark.operator) (fun _ _ => rfl) fun _ _ => max_le_max
  | argument value ih =>
      obtain ⟨phrase, hnode, htokens, hnesting, hsublist⟩ := Fitted.expression ih
      refine ⟨.argument phrase, congrArg (fun node => [node]) hnode, ?_, hnesting, hsublist⟩
      exact htokens.trans List.intercalate_singleton.symm
  | furtherArgument before value ihBefore ihValue =>
      obtain ⟨arguments, htree, hargumentTokens, hargumentNesting, hargumentSublist⟩ : FittedArguments constants _ _ _ :=
        ihBefore
      obtain ⟨phrase, hnode, htokens, hnesting, hsublist⟩ := Fitted.expression ihValue
      refine ⟨.furtherArgument arguments phrase, ?_, ?_, ?_, hargumentSublist.append (hsublist.cons_cons _)⟩
      · show arguments.tree constants ++ [phrase.tree constants] = _
        rw [htree, hnode]
        rfl
      · show arguments.tokens ++ .symbol .comma :: phrase.tokens = separated .comma ((before.tree constants ++ [_]).map _)
        have hne : (before.tree constants).map Node.spelling ≠ [] := by
          simpa using before.tree_arguments_ne_nil constants
        rw [List.map_append, List.map_singleton, separated_append _ hne, hargumentTokens, htokens]
      · exact max_le_max hargumentNesting hnesting

/-! ### Statements of a spelling -/

namespace Statement

variable {statement : Statement}

theorem parameterTokens_eq_separated (parameters : List Identifier) :
    parameterTokens parameters = separated .comma ((parameters.map (.identifier .variable)).map Node.spelling) := by
  cases parameters with
  | nil => rfl
  | cons first others =>
      rw [List.map_cons, List.map_cons, separated_cons, List.flatMap_map, List.flatMap_map]
      rfl

theorem spelling_tree_bound (constants : List Identifier) (binding : Binding) (name : Identifier)
    (value : Phrase .expression) : ((bound binding name value).tree constants).spelling =
      ⟨.expression, .keyword binding.keyword :: .identifier name :: .symbol .assign ::
        (value.tree constants).spelling.tokens⟩ := by
  cases binding <;> exact Node.spelling_over _ _

theorem spelling_tree_function (constants : List Identifier) (name : Identifier) (parameters : List Identifier)
    (body : Phrase .expression) : ((function name parameters body).tree constants).spelling =
      ⟨.expression, .keyword .fnDecl :: .identifier name :: .symbol .openParen ::
        (parameterTokens parameters ++ .symbol .closeParen :: .symbol .assign ::
          (body.tree constants).spelling.tokens)⟩ := by
  have hparameters : (Node.over .parameters (parameters.map (.identifier .variable))).spelling.tokens =
      parameterTokens parameters := by
    rw [Node.spelling_over, parameterTokens_eq_separated]
    rfl
  rw [← hparameters]
  exact Node.spelling_over _ _

theorem spelling_tree_assigned (constants : List Identifier) (target : Identifier) (value : Phrase .expression) :
    ((assigned target value).tree constants).spelling =
      ⟨.expression, .identifier target :: .symbol .assign :: (value.tree constants).spelling.tokens⟩ :=
  Node.spelling_over _ _

/-- A statement that stands for the same tree as another one, is written as the tree is and is made of some of its
tokens. -/
structure Spells (constants : List Identifier) (spelled statement : Statement) : Prop where
  tree : spelled.tree constants = statement.tree constants
  declare : spelled.declare constants = statement.declare constants
  tokens : spelled.tokens = (statement.tree constants).spelling.tokens
  nesting : spelled.nesting ≤ statement.nesting
  sublist : List.Sublist spelled.tokens statement.tokens

theorem exists_spells (constants : List Identifier) (statement : Statement) :
    ∃ spelled, Spells constants spelled statement := by
  obtain ⟨value, hvalue, htokens, hnesting, hsublist⟩ := Fitted.expression (statement.value.fits constants)
  cases statement with
  | bound binding name original =>
      refine ⟨bound binding name value, ?_, rfl, ?_, hnesting, ((hsublist.cons_cons _).cons_cons _).cons_cons _⟩
      · exact Node.over_congr _ rfl hvalue
      · rw [spelling_tree_bound, tokens, htokens]
        rfl
  | function name parameters original =>
      refine ⟨function name parameters value, ?_, rfl, ?_, hnesting, ?_⟩
      · rw [tree, hvalue]
        rfl
      · rw [spelling_tree_function, tokens, htokens]
        rfl
      · exact ((((hsublist.cons_cons _).cons_cons _).append_left _).cons_cons _).cons_cons _ |>.cons_cons _
  | assigned target original =>
      refine ⟨assigned target value, ?_, rfl, ?_, hnesting, (hsublist.cons_cons _).cons_cons _⟩
      · exact Node.over_congr _ rfl hvalue
      · rw [spelling_tree_assigned, tokens, htokens]
        rfl
  | bare original => exact ⟨bare value, hvalue, rfl, htokens, hnesting, hsublist⟩

/-- The statements after the first one are written as their trees are. -/
theorem exists_spells_others (constants : List Identifier) (others : List Statement) :
    ∃ spelled : List Statement, trees constants spelled = trees constants others ∧
      (spelled.flatMap fun other => .symbol .semicolon :: other.tokens) =
        ((trees constants others).map Node.spelling).flatMap (fun other => .symbol .semicolon :: other.tokens) ∧
      (spelled.map Statement.nesting).foldr max 0 ≤ (others.map Statement.nesting).foldr max 0 ∧
      List.Sublist (spelled.flatMap fun other => .symbol .semicolon :: other.tokens)
        (others.flatMap fun other => .symbol .semicolon :: other.tokens) := by
  induction others generalizing constants with
  | nil => exact ⟨[], rfl, rfl, Nat.le_refl _, List.Sublist.refl _⟩
  | cons first others ih =>
      obtain ⟨spelled, h⟩ := exists_spells constants first
      obtain ⟨more, htrees, htokens, hnesting, hsublist⟩ := ih (first.declare constants)
      refine ⟨spelled :: more, ?_, ?_, ?_, ?_⟩
      · rw [trees, trees, h.tree, h.declare, htrees]
      · rw [List.flatMap_cons, htokens, h.tokens]
        rfl
      · exact max_le_max h.nesting hnesting
      · rw [List.flatMap_cons, List.flatMap_cons]
        exact (h.sublist.cons_cons _).append hsublist

end Statement

namespace Sentence

theorem spelling_tree (sentence : Sentence) : sentence.tree.spelling.tokens =
    separated .semicolon ((Statement.trees [] (sentence.first :: sentence.others)).map Node.spelling) := by
  unfold tree
  split
  · rename_i only htrees
    rw [htrees]
    exact List.intercalate_singleton.symm
  · rw [Node.spelling_over]
    rfl

/-- The tree of a sentence is spelled by one that stands for the same tree, is made of some of the tokens of the
sentence and nests no deeper. -/
theorem exists_spelled (sentence : Sentence) : ∃ spelled : Sentence, spelled.tree = sentence.tree ∧
    spelled.tokens = sentence.tree.spelling.tokens ∧ spelled.nesting ≤ sentence.nesting ∧
    List.Sublist spelled.tokens sentence.tokens := by
  obtain ⟨first, hfirst⟩ := Statement.exists_spells [] sentence.first
  obtain ⟨others, htrees, htokens, hnesting, hsublist⟩ :=
    Statement.exists_spells_others (sentence.first.declare []) sentence.others
  refine ⟨⟨first, others, false⟩, ?_, ?_, ?_, ?_⟩
  · rw [tree, tree, Statement.trees, Statement.trees, hfirst.tree, hfirst.declare, htrees]
  · rw [spelling_tree, Statement.trees, List.map_cons, separated_cons, ← htokens, ← hfirst.tokens]
    exact List.append_nil _
  · exact max_le_max hfirst.nesting hnesting
  · show List.Sublist (_ ++ []) _
    rw [List.append_nil]
    exact (hfirst.sublist.append hsublist).trans (List.sublist_append_left _ _)

end Sentence

end FormulaCompiler
