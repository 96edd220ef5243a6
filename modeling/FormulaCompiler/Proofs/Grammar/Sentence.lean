import FormulaCompiler.Proofs.Grammar.Phrase

/-!
# Sentences of the grammar

A `Statement` is a derivation of one statement and a `Sentence` one of a whole unit. As for phrases, the
tokens, the tree and the nesting of a derivation are read off it. A constant is known as one in the
statements after the one that declares it, which is all that passes between statements.
-/

namespace FormulaCompiler

/-- The declarations of a name with a value. -/
inductive Binding where
  | constant
  | variable

namespace Binding

def keyword : Binding → Keyword
  | .constant => .constDecl
  | .variable => .letDecl

def kind : Binding → IdentifierKind
  | .constant => .constant
  | .variable => .variable

def operator : Binding → Operator
  | .constant => .defineConst
  | .variable => .defineLet

/-- The names known to be constant after a declaration. -/
def declare (name : Identifier) (constants : List Identifier) : Binding → List Identifier
  | .constant => name :: constants
  | .variable => constants

end Binding

/-- A derivation of a statement. -/
inductive Statement where
  | bound (binding : Binding) (name : Identifier) (value : Phrase .expression)
  | function (name : Identifier) (parameters : List Identifier) (body : Phrase .expression)
  | assigned (target : Identifier) (value : Phrase .expression)
  | bare (value : Phrase .expression)

/-- The parameters of a function, with commas between them. -/
def parameterTokens : List Identifier → List Token
  | [] => []
  | first :: others => .identifier first :: others.flatMap fun name => [.symbol .comma, .identifier name]

namespace Statement

def tokens : Statement → List Token
  | bound binding name value =>
      .keyword binding.keyword :: .identifier name :: .symbol .assign :: value.tokens
  | function name parameters body =>
      .keyword .fnDecl :: .identifier name :: .symbol .openParen ::
        (parameterTokens parameters ++ .symbol .closeParen :: .symbol .assign :: body.tokens)
  | assigned target value => .identifier target :: .symbol .assign :: value.tokens
  | bare value => value.tokens

/-- The expression that a statement ends in. -/
def value : Statement → Phrase .expression
  | bound _ _ value => value
  | function _ _ body => body
  | assigned _ value => value
  | bare value => value

def nesting (statement : Statement) : Nat := statement.value.nesting

/-- The tree of a statement after some names have been declared constant. -/
def tree (constants : List Identifier) : Statement → Node
  | bound binding name value =>
      .over binding.operator [.identifier binding.kind name, value.tree constants]
  | function name parameters body =>
      .over .function [.identifier .function name,
        .over .parameters (parameters.map (.identifier .variable)), body.tree constants]
  | assigned target value =>
      .over .assign [.identifier (target.kindOfUse constants) target, value.tree constants]
  | bare value => value.tree constants

/-- The names known to be constant after a statement. -/
def declare (constants : List Identifier) : Statement → List Identifier
  | bound binding name _ => binding.declare name constants
  | _ => constants

/-- Whether a statement goes on with a token that comes after it. A name alone goes on with an equals
sign. -/
def Absorbs : Statement → Token → Prop
  | bare value, token =>
      value.Absorbs token ∨ token = .symbol .assign ∧ ∃ name, value.tokens = [.identifier name]
  | statement, token => statement.value.Absorbs token

/-- Whether a statement ends in front of the tokens that come after it. -/
def Closed (statement : Statement) (rest : List Token) : Prop :=
  ∀ token, rest.head? = some token → ¬ statement.Absorbs token

/-- The trees of statements that follow each other. -/
def trees (constants : List Identifier) : List Statement → List Node
  | [] => []
  | statement :: statements => statement.tree constants :: trees (statement.declare constants) statements

end Statement

/-- A derivation of a unit. -/
structure Sentence where
  first : Statement
  others : List Statement
  /-- Whether a semicolon comes after the last statement. -/
  trailing : Bool

/-- Statements with semicolons between them. -/
def seriesTokens (first : Statement) (others : List Statement) : List Token :=
  first.tokens ++ others.flatMap fun statement => .symbol .semicolon :: statement.tokens

namespace Sentence

def tokens (sentence : Sentence) : List Token :=
  seriesTokens sentence.first sentence.others ++ if sentence.trailing then [.symbol .semicolon] else []

/-- How deep the statement nests that nests deepest. -/
def nesting (sentence : Sentence) : Nat :=
  ((sentence.first :: sentence.others).map Statement.nesting).foldr max 0

/-- One statement is the tree itself; several are put in sequence. -/
def tree (sentence : Sentence) : Node :=
  match Statement.trees [] (sentence.first :: sentence.others) with
  | [only] => only
  | statements => .over .sequence statements

end Sentence

/-! ### Tokens of phrases and statements -/

theorem mem_parameterTokens {name : Identifier} {parameters : List Identifier} (h : name ∈ parameters) :
    .identifier name ∈ parameterTokens parameters := by
  cases parameters with
  | nil => contradiction
  | cons first others =>
      rcases List.mem_cons.1 h with rfl | h
      · exact .head _
      · exact .tail _ (List.mem_flatMap.2 ⟨name, h, by simp⟩)

/-- Whether a token may stand inside an expression, which neither a keyword nor an equals sign does. -/
def Token.Inside : Token → Prop
  | keyword _ => False
  | symbol .assign => False
  | _ => True

private theorem BinaryMark.inside {tier : Tier} (mark : BinaryMark tier) : (Token.symbol mark.symbol).Inside := by
  cases mark <;> trivial

theorem Phrase.inside {c : Category} (phrase : Phrase c) : ∀ token ∈ phrase.tokens, token.Inside := by
  have surround {left right : List Token} {between : Token} (hleft : ∀ token ∈ left, token.Inside)
      (hbetween : between.Inside) (hright : ∀ token ∈ right, token.Inside) :
      ∀ token ∈ left ++ between :: right, token.Inside := by
    simp only [List.forall_mem_append, List.forall_mem_cons]
    exact ⟨hleft, hbetween, hright⟩
  induction phrase with
  | number value => simp [tokens, Token.Inside]
  | name used => simp [tokens, Token.Inside]
  | bareCall callee => simp [tokens, Token.Inside]
  | call callee arguments ih =>
      refine List.forall_mem_cons.2 ⟨trivial, List.forall_mem_cons.2 ⟨trivial, ?_⟩⟩
      exact surround ih trivial (by simp)
  | enclosed inner ih => exact List.forall_mem_cons.2 ⟨trivial, surround ih trivial (by simp)⟩
  | ofAtom atom ih => exact ih
  | negated operand ih => exact List.forall_mem_cons.2 ⟨trivial, ih⟩
  | ofSigned base ih => exact ih
  | raised base exponent ihBase ihExponent => exact surround ihBase trivial ihExponent
  | ofPower first ih => exact ih
  | multiplied left mark right ihLeft ihRight => exact surround ihLeft mark.inside ihRight
  | ofProduct first ih => exact ih
  | added left mark right ihLeft ihRight => exact surround ihLeft mark.inside ihRight
  | ofSum sum ih => exact ih
  | compared left mark right ihLeft ihRight => exact surround ihLeft mark.inside ihRight
  | argument value ih => exact ih
  | furtherArgument before value ihBefore ihValue => exact surround ihBefore trivial ihValue

theorem Phrase.tokens_eq_cons {c : Category} (phrase : Phrase c) :
    ∃ token more, phrase.tokens = token :: more ∧ token.StartsPhrase := by
  have extend {left right : List Token} (h : ∃ token more, left = token :: more ∧ token.StartsPhrase) :
      ∃ token more, left ++ right = token :: more ∧ token.StartsPhrase := by
    obtain ⟨token, more, rfl, hstart⟩ := h
    exact ⟨token, more ++ right, rfl, hstart⟩
  induction phrase with
  | number value => exact ⟨_, _, rfl, trivial⟩
  | name used => exact ⟨_, _, rfl, trivial⟩
  | bareCall callee => exact ⟨_, _, rfl, trivial⟩
  | call callee arguments => exact ⟨_, _, rfl, trivial⟩
  | enclosed inner => exact ⟨_, _, rfl, trivial⟩
  | ofAtom atom ih => exact ih
  | negated operand => exact ⟨_, _, rfl, trivial⟩
  | ofSigned base ih => exact ih
  | raised base exponent ih _ => exact extend ih
  | ofPower first ih => exact ih
  | multiplied left mark right ih _ => exact extend ih
  | ofProduct first ih => exact ih
  | added left mark right ih _ => exact extend ih
  | ofSum sum ih => exact ih
  | compared left mark right ih _ => exact extend ih
  | argument value ih => exact ih
  | furtherArgument before value ih _ => exact extend ih

/-- Whether tokens begin like an assignment. -/
def OpensAssignment (values : List Token) : Prop :=
  ∃ target more, values = .identifier target :: .symbol .assign :: more

namespace Statement

variable {statement : Statement}

/-- A bare expression is never the beginning of an assignment. -/
theorem not_opensAssignment {value : Phrase .expression} {rest : List Token} (h : (bare value).Closed rest) :
    ¬ OpensAssignment (value.tokens ++ rest) := by
  rintro ⟨target, more, heq⟩
  obtain ⟨token, others, htokens, -⟩ := value.tokens_eq_cons
  rw [htokens, List.cons_append, List.cons.injEq] at heq
  obtain ⟨rfl, heq⟩ := heq
  cases others with
  | nil =>
      refine h (.symbol .assign) ?_ (.inr ⟨rfl, target, htokens⟩)
      rw [← List.nil_append rest, heq, List.head?_cons]
  | cons second others =>
      have hinside : second.Inside := value.inside second (by simp [htokens])
      rw [List.cons_append, List.cons.injEq] at heq
      rw [heq.1] at hinside
      exact hinside

theorem tokens_ne_nil : statement.tokens ≠ [] := by
  cases statement with
  | bare value =>
      obtain ⟨token, more, htokens, -⟩ := value.tokens_eq_cons
      simp [tokens, htokens]
  | _ => simp [tokens]

theorem closed_nil : statement.Closed [] := fun _ h => by simp at h

/-- A semicolon ends every statement. -/
theorem closed_semicolon (rest : List Token) : statement.Closed (.symbol .semicolon :: rest) := by
  have hvalue : statement.value.Closed (.symbol .semicolon :: rest) :=
    statement.value.closed_symbol (by decide) rest
  intro token hhead
  cases statement with
  | bare value =>
      rintro (h | ⟨rfl, -⟩)
      · exact hvalue token hhead h
      · simp at hhead
  | _ => exact hvalue token hhead

end Statement

end FormulaCompiler
