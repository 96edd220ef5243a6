import FormulaCompiler.Proofs.Tree

/-!
# Phrases of the grammar

A `Phrase` is a derivation of an expression, of one of the parts that expressions are made of, or of
the arguments of a call. Its constructors are the productions of the grammar, one family for each
nonterminal, so a run of tokens derives from a nonterminal exactly when it is `tokens` of a phrase of
that category. A repetition of operands associates to the left and is written with the part before its
last operator as a phrase of the same category.

Everything else that a derivation prescribes is read off it: the `tree` it stands for, how deep it nests,
how high its tree is, and which token would have gone on with it. Nothing here knows how a parser works.
-/

namespace FormulaCompiler

/-- The nonterminals of expressions. An argument list here has at least one argument. -/
inductive Category where
  | atom
  | signed
  | power
  | product
  | sum
  | expression
  | arguments

/-- What a phrase stands for: one node, or the nodes of the arguments in order. -/
@[reducible]
def Category.Value : Category → Type
  | arguments => List Node
  | _ => Node

/-- The precedences of the binary operators that do not nest to the right. -/
inductive Tier where
  | product
  | sum
  | comparison

/-- The binary operators of a precedence, as they stand between their operands. -/
inductive BinaryMark : Tier → Type where
  | times : BinaryMark .product
  | slash : BinaryMark .product
  | percent : BinaryMark .product
  | plus : BinaryMark .sum
  | minus : BinaryMark .sum
  | equal : BinaryMark .comparison
  | notEqual : BinaryMark .comparison
  | less : BinaryMark .comparison
  | lessOrEqual : BinaryMark .comparison
  | greater : BinaryMark .comparison
  | greaterOrEqual : BinaryMark .comparison

namespace BinaryMark

variable {tier : Tier}

def symbol : BinaryMark tier → Symbol
  | times => .times
  | slash => .slash
  | percent => .percent
  | plus => .plus
  | minus => .minus
  | equal => .equal
  | notEqual => .notEqual
  | less => .less
  | lessOrEqual => .lessOrEqual
  | greater => .greater
  | greaterOrEqual => .greaterOrEqual

def operator : BinaryMark tier → Operator
  | times => .multiply
  | slash => .divide
  | percent => .modulo
  | plus => .add
  | minus => .subtract
  | equal => .equal
  | notEqual => .notEqual
  | less => .less
  | lessOrEqual => .lessOrEqual
  | greater => .greater
  | greaterOrEqual => .greaterOrEqual

end BinaryMark

/-- The tokens that are an operator of a precedence. -/
def Tier.Marks (tier : Tier) (token : Token) : Prop :=
  ∃ mark : BinaryMark tier, token = .symbol mark.symbol

/-- A derivation from a nonterminal. -/
inductive Phrase : Category → Type where
  | number (value : Binary64) : Phrase .atom
  | name (used : Identifier) : Phrase .atom
  /-- A call without arguments. -/
  | bareCall (callee : Identifier) : Phrase .atom
  | call (callee : Identifier) (arguments : Phrase .arguments) : Phrase .atom
  | enclosed (inner : Phrase .expression) : Phrase .atom
  | ofAtom (atom : Phrase .atom) : Phrase .signed
  | negated (operand : Phrase .signed) : Phrase .signed
  | ofSigned (base : Phrase .signed) : Phrase .power
  | raised (base : Phrase .signed) (exponent : Phrase .power) : Phrase .power
  | ofPower (first : Phrase .power) : Phrase .product
  | multiplied (left : Phrase .product) (mark : BinaryMark .product) (right : Phrase .power) :
      Phrase .product
  | ofProduct (first : Phrase .product) : Phrase .sum
  | added (left : Phrase .sum) (mark : BinaryMark .sum) (right : Phrase .product) : Phrase .sum
  | ofSum (sum : Phrase .sum) : Phrase .expression
  | compared (left : Phrase .sum) (mark : BinaryMark .comparison) (right : Phrase .sum) :
      Phrase .expression
  | argument (value : Phrase .expression) : Phrase .arguments
  | furtherArgument (before : Phrase .arguments) (value : Phrase .expression) : Phrase .arguments

/-- The tokens that an expression can begin with. -/
def Token.StartsPhrase : Token → Prop
  | number _ => True
  | identifier _ => True
  | symbol .openParen => True
  | symbol .minus => True
  | _ => False

theorem Token.StartsPhrase.exists_eq {token : Token} (h : token.StartsPhrase) :
    (∃ value, token = number value) ∨ (∃ name, token = identifier name) ∨ token = symbol .openParen ∨
      token = symbol .minus := by
  unfold StartsPhrase at h
  split at h
  · exact .inl ⟨_, rfl⟩
  · exact .inr (.inl ⟨_, rfl⟩)
  · exact .inr (.inr (.inl rfl))
  · exact .inr (.inr (.inr rfl))
  · exact h.elim

/-- Whether a token, if it is a name, has at least one character. -/
def Token.Named : Token → Prop
  | identifier name => name.spelling ≠ ""
  | _ => True

/-- What a name stands for where it is used, given the names declared constant before. -/
def Identifier.kindOfUse (name : Identifier) (constants : List Identifier) : IdentifierKind :=
  if constants.contains name then .constant else .variable

namespace Phrase

def tokens : {c : Category} → Phrase c → List Token
  | _, number value => [.number value]
  | _, name used => [.identifier used]
  | _, bareCall callee => [.identifier callee, .symbol .openParen, .symbol .closeParen]
  | _, call callee arguments =>
      .identifier callee :: .symbol .openParen :: (arguments.tokens ++ [.symbol .closeParen])
  | _, enclosed inner => .symbol .openParen :: (inner.tokens ++ [.symbol .closeParen])
  | _, ofAtom atom => atom.tokens
  | _, negated operand => .symbol .minus :: operand.tokens
  | _, ofSigned base => base.tokens
  | _, raised base exponent => base.tokens ++ .symbol .caret :: exponent.tokens
  | _, ofPower first => first.tokens
  | _, multiplied left mark right => left.tokens ++ .symbol mark.symbol :: right.tokens
  | _, ofProduct first => first.tokens
  | _, added left mark right => left.tokens ++ .symbol mark.symbol :: right.tokens
  | _, ofSum sum => sum.tokens
  | _, compared left mark right => left.tokens ++ .symbol mark.symbol :: right.tokens
  | _, argument value => value.tokens
  | _, furtherArgument before value => before.tokens ++ .symbol .comma :: value.tokens

/-- How many parentheses, argument lists, operands of a minus sign and exponents are open at once where a
phrase nests deepest. -/
def nesting : {c : Category} → Phrase c → Nat
  | _, number _ => 0
  | _, name _ => 0
  | _, bareCall _ => 1
  | _, call _ arguments => arguments.nesting + 1
  | _, enclosed inner => inner.nesting + 1
  | _, ofAtom atom => atom.nesting
  | _, negated operand => operand.nesting + 1
  | _, ofSigned base => base.nesting
  | _, raised base exponent => max base.nesting (exponent.nesting + 1)
  | _, ofPower first => first.nesting
  | _, multiplied left _ right => max left.nesting right.nesting
  | _, ofProduct first => first.nesting
  | _, added left _ right => max left.nesting right.nesting
  | _, ofSum sum => sum.nesting
  | _, compared left _ right => max left.nesting right.nesting
  | _, argument value => value.nesting
  | _, furtherArgument before value => max before.nesting value.nesting

/-- The tree that a phrase stands for after some names have been declared constant. -/
def tree (constants : List Identifier) : {c : Category} → Phrase c → c.Value
  | _, number value => .ofNumber value
  | _, name used => .identifier (used.kindOfUse constants) used
  | _, bareCall callee => Node.over .call [.identifier .function callee]
  | _, call callee arguments => Node.over .call (.identifier .function callee :: arguments.tree constants)
  | _, enclosed inner => inner.tree constants
  | _, ofAtom atom => atom.tree constants
  | _, negated operand => Node.over .negate [operand.tree constants]
  | _, ofSigned base => base.tree constants
  | _, raised base exponent => Node.over .power [base.tree constants, exponent.tree constants]
  | _, ofPower first => first.tree constants
  | _, multiplied left mark right =>
      Node.over mark.operator [left.tree constants, right.tree constants]
  | _, ofProduct first => first.tree constants
  | _, added left mark right => Node.over mark.operator [left.tree constants, right.tree constants]
  | _, ofSum sum => sum.tree constants
  | _, compared left mark right => Node.over mark.operator [left.tree constants, right.tree constants]
  | _, argument value => [value.tree constants]
  | _, furtherArgument before value => before.tree constants ++ [value.tree constants]

/-- The height of the tree of a phrase, or of the highest argument. -/
def height : {c : Category} → Phrase c → Nat
  | _, number _ => 1
  | _, name _ => 1
  | _, bareCall _ => 2
  | _, call _ arguments => 1 + max 1 arguments.height
  | _, enclosed inner => inner.height
  | _, ofAtom atom => atom.height
  | _, negated operand => 1 + operand.height
  | _, ofSigned base => base.height
  | _, raised base exponent => 1 + max base.height exponent.height
  | _, ofPower first => first.height
  | _, multiplied left _ right => 1 + max left.height right.height
  | _, ofProduct first => first.height
  | _, added left _ right => 1 + max left.height right.height
  | _, ofSum sum => sum.height
  | _, compared left _ right => 1 + max left.height right.height
  | _, argument value => value.height
  | _, furtherArgument before value => max before.height value.height

/-- Whether a part that a phrase ends in goes on with a token that comes after the phrase. The operators
that join two phrases of the category itself are not meant. -/
def Absorbs : {c : Category} → Phrase c → Token → Prop
  | _, number _, _ => False
  | _, name _, token => token = .symbol .openParen
  | _, bareCall _, _ => False
  | _, call _ _, _ => False
  | _, enclosed _, _ => False
  | _, ofAtom atom, token => atom.Absorbs token
  | _, negated operand, token => operand.Absorbs token
  | _, ofSigned base, token => base.Absorbs token ∨ token = .symbol .caret
  | _, raised _ exponent, token => exponent.Absorbs token
  | _, ofPower first, token => first.Absorbs token
  | _, multiplied _ _ right, token => right.Absorbs token
  | _, ofProduct first, token => first.Absorbs token ∨ Tier.product.Marks token
  | _, added _ _ right, token => right.Absorbs token ∨ Tier.product.Marks token
  | _, ofSum sum, token => sum.Absorbs token ∨ Tier.sum.Marks token ∨ Tier.comparison.Marks token
  | _, compared _ _ right, token => right.Absorbs token ∨ Tier.sum.Marks token
  | _, argument value, token => value.Absorbs token
  | _, furtherArgument _ value, token => value.Absorbs token

/-- Whether a phrase ends in front of the tokens that come after it. -/
def Closed {c : Category} (phrase : Phrase c) (rest : List Token) : Prop :=
  ∀ token, rest.head? = some token → ¬ phrase.Absorbs token

end Phrase

/-- The operators and commas that join two phrases of a category to one. -/
def Category.Joins : Category → Token → Prop
  | product, token => Tier.product.Marks token
  | sum, token => Tier.sum.Marks token
  | arguments, token => token = .symbol .comma
  | _, _ => False

/-- A comparison is no operator of a sum. -/
theorem BinaryMark.not_marks_sum (mark : BinaryMark .comparison) :
    ¬ Tier.sum.Marks (.symbol mark.symbol) := by
  rintro ⟨other, h⟩
  cases mark <;> cases other <;> simp [symbol] at h

/-! ### Heights -/

/-- The height of what a phrase of a category stands for. -/
def Category.heightOf : (c : Category) → c.Value → Nat
  | atom, node => node.height
  | signed, node => node.height
  | power, node => node.height
  | product, node => node.height
  | sum, node => node.height
  | expression, node => node.height
  | arguments, nodes => (nodes.map Node.height).foldr max 0

theorem Phrase.heightOf_tree (constants : List Identifier) {c : Category} (phrase : Phrase c) :
    c.heightOf (phrase.tree constants) = phrase.height := by
  induction phrase with
  | number value => rfl
  | name used => rfl
  | bareCall callee => rfl
  | call callee arguments ih =>
      simp only [Category.heightOf] at ih
      simp only [Category.heightOf, tree, Node.height_over, Node.heightOver, List.map_cons,
        List.foldr_cons, ih, height]
      rfl
  | enclosed inner ih => exact ih
  | ofAtom atom ih => exact ih
  | negated operand ih =>
      simp only [Category.heightOf] at ih
      simp [Category.heightOf, tree, Node.height_over, Node.heightOver, ih, height]
  | ofSigned base ih => exact ih
  | raised base exponent ihBase ihExponent =>
      simp only [Category.heightOf] at ihBase ihExponent
      simp only [Category.heightOf, tree, Node.height_over, Node.heightOver_pair, ihBase, ihExponent, height]
  | ofPower first ih => exact ih
  | multiplied left mark right ihLeft ihRight =>
      simp only [Category.heightOf] at ihLeft ihRight
      simp only [Category.heightOf, tree, Node.height_over, Node.heightOver_pair, ihLeft, ihRight, height]
  | ofProduct first ih => exact ih
  | added left mark right ihLeft ihRight =>
      simp only [Category.heightOf] at ihLeft ihRight
      simp only [Category.heightOf, tree, Node.height_over, Node.heightOver_pair, ihLeft, ihRight, height]
  | ofSum sum ih => exact ih
  | compared left mark right ihLeft ihRight =>
      simp only [Category.heightOf] at ihLeft ihRight
      simp only [Category.heightOf, tree, Node.height_over, Node.heightOver_pair, ihLeft, ihRight, height]
  | argument value ih =>
      simp only [Category.heightOf] at ih
      simp [Category.heightOf, tree, ih, height]
  | furtherArgument before value ihBefore ihValue =>
      simp only [Category.heightOf] at ihBefore ihValue
      simp only [Category.heightOf, tree, List.map_append, List.map_cons, List.map_nil,
        Node.foldr_max_append, ihBefore, ihValue, height]

/-! ### Which tokens can go on with a phrase -/

/-- The symbols that a phrase of a category may absorb: an opening parenthesis after a name, and the
operators of the tighter categories. -/
def Category.absorbable : Category → List Symbol
  | atom => [.openParen]
  | signed => [.openParen]
  | power => [.openParen, .caret]
  | product => [.openParen, .caret]
  | sum => [.openParen, .caret, .times, .slash, .percent]
  | expression => [.openParen, .caret, .times, .slash, .percent, .plus, .minus, .equal, .notEqual,
      .less, .lessOrEqual, .greater, .greaterOrEqual]
  | arguments => [.openParen, .caret, .times, .slash, .percent, .plus, .minus, .equal, .notEqual,
      .less, .lessOrEqual, .greater, .greaterOrEqual]

private theorem exists_mem_of_marks {tier : Tier} {token : Token} {symbols : List Symbol}
    (hmarks : tier.Marks token) (hmem : ∀ mark : BinaryMark tier, mark.symbol ∈ symbols) :
    ∃ symbol ∈ symbols, token = .symbol symbol := by
  obtain ⟨mark, rfl⟩ := hmarks
  exact ⟨mark.symbol, hmem mark, rfl⟩

theorem Phrase.mem_absorbable {c : Category} {phrase : Phrase c} {token : Token}
    (h : phrase.Absorbs token) : ∃ symbol ∈ c.absorbable, token = .symbol symbol := by
  -- Looser categories may absorb whatever tighter ones may.
  have widen {tight loose : Category} (hsub : tight.absorbable ⊆ loose.absorbable)
      (htight : ∃ symbol ∈ tight.absorbable, token = .symbol symbol) :
      ∃ symbol ∈ loose.absorbable, token = .symbol symbol := by
    obtain ⟨symbol, hmem, htoken⟩ := htight
    exact ⟨symbol, hsub hmem, htoken⟩
  induction phrase with
  | number value => exact h.elim
  | name used => exact ⟨.openParen, by decide, h⟩
  | bareCall callee => exact h.elim
  | call callee arguments => exact h.elim
  | enclosed inner => exact h.elim
  | ofAtom atom ih => exact ih h
  | negated operand ih => exact ih h
  | ofSigned base ih =>
      rcases h with h | h
      · exact widen (by decide) (ih h)
      · exact ⟨.caret, by decide, h⟩
  | raised base exponent _ ih => exact ih h
  | ofPower first ih => exact ih h
  | multiplied left mark right _ ih => exact ih h
  | ofProduct first ih =>
      rcases h with h | h
      · exact widen (by decide) (ih h)
      · exact exists_mem_of_marks h (by intro mark; cases mark <;> decide)
  | added left mark right _ ih =>
      rcases h with h | h
      · exact widen (by decide) (ih h)
      · exact exists_mem_of_marks h (by intro mark; cases mark <;> decide)
  | ofSum sum ih =>
      rcases h with h | h | h
      · exact widen (by decide) (ih h)
      · exact exists_mem_of_marks h (by intro mark; cases mark <;> decide)
      · exact exists_mem_of_marks h (by intro mark; cases mark <;> decide)
  | compared left mark right _ ih =>
      rcases h with h | h
      · exact widen (by decide) (ih h)
      · exact exists_mem_of_marks h (by intro mark; cases mark <;> decide)
  | argument value ih => exact ih h
  | furtherArgument before value _ ih => exact ih h

theorem Phrase.head?_ne_minus (atom : Phrase .atom) (rest : List Token) :
    (atom.tokens ++ rest).head? ≠ some (.symbol .minus) := by
  cases atom <;> simp [tokens]

/-- A phrase ends in front of a symbol that its category cannot absorb. -/
theorem Phrase.closed_symbol {c : Category} (phrase : Phrase c) {symbol : Symbol}
    (hsymbol : symbol ∉ c.absorbable) (rest : List Token) :
    phrase.Closed (.symbol symbol :: rest) := by
  intro token hhead habsorbs
  obtain ⟨other, hmem, htoken⟩ := mem_absorbable habsorbs
  simp only [List.head?_cons, Option.some.injEq] at hhead
  rw [← hhead, Token.symbol.injEq] at htoken
  exact hsymbol (htoken ▸ hmem)

end FormulaCompiler
