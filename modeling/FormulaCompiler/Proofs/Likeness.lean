import Mathlib.Data.List.Forall2
import FormulaCompiler.Position
import FormulaCompiler.Proofs.Tree
import FormulaCompiler.SyntaxError

/-!
# Likeness

When two runs of the parser are compared, their tokens, trees and errors need not be the same, but names, numbers
and places in them have to correspond. A `Likeness` says which do. Tokens, trees and errors are then alike if they
differ in nothing else.
-/

namespace FormulaCompiler

/-- Which names, numbers and places are alike. Names that are alike differ in the case of letters at most. -/
structure Likeness where
  name : Identifier → Identifier → Prop
  number : Binary64 → Binary64 → Prop
  place : Span → Span → Prop
  key_eq {a b : Identifier} (h : name a b) : a.key = b.key

/-- The likeness under which nothing is like anything but itself. -/
def Likeness.exact : Likeness := ⟨Eq, Eq, Eq, fun h => congrArg _ h⟩

/-- The case of letters has nothing to do with whether there are any. -/
theorem Identifier.spelling_eq_empty_iff {a b : Identifier} (h : a.key = b.key) :
    a.spelling = "" ↔ b.spelling = "" := by
  have hchars : a.spelling.toList.map Char.toLower = b.spelling.toList.map Char.toLower := by
    rw [← String.toList_map, ← String.toList_map]
    exact congrArg String.toList h
  rw [← String.toList_eq_nil_iff, ← String.toList_eq_nil_iff, ← List.map_eq_nil_iff, hchars, List.map_eq_nil_iff]

variable (L : Likeness)

/-! ### Tokens -/

inductive Token.Like : Token → Token → Prop where
  | identifier {a b : Identifier} (h : L.name a b) : Like (identifier a) (identifier b)
  | keyword (word : Keyword) : Like (keyword word) (keyword word)
  | number {x y : Binary64} (h : L.number x y) : Like (number x) (number y)
  | symbol (mark : Symbol) : Like (symbol mark) (symbol mark)

/-- Whether located tokens are alike and so are their places. -/
structure Likeness.Placed (a b : Spanned Token) : Prop where
  value : a.value.Like L b.value
  place : L.place a.span b.span

/-- Whether a token is neither a name nor a number, so that it is known exactly. -/
def Token.Fixed : Token → Prop
  | keyword _ => True
  | symbol _ => True
  | _ => False

variable {L}

theorem Token.Fixed.like {token : Token} (h : token.Fixed) : token.Like L token := by
  cases token with
  | keyword word => exact .keyword word
  | symbol mark => exact .symbol mark
  | _ => exact h.elim

theorem Token.Like.same_fixed {a b wanted : Token} (h : a.Like L b) (hwanted : wanted.Fixed) :
    (a == wanted) = (b == wanted) := by
  cases h with
  | identifier h => cases wanted <;> first | rfl | exact hwanted.elim
  | number h => cases wanted <;> first | rfl | exact hwanted.elim
  | keyword word => rfl
  | symbol mark => rfl

theorem Token.Like.eq_of_exact {a b : Token} (h : a.Like .exact b) : a = b := by
  cases h with
  | identifier h => exact congrArg _ h
  | number h => exact congrArg _ h
  | _ => rfl

theorem Likeness.exact_placed (token : Spanned Token) : Likeness.exact.Placed token token := by
  refine ⟨?_, rfl⟩
  cases token.value with
  | identifier name => exact .identifier rfl
  | keyword word => exact .keyword word
  | number value => exact .number rfl
  | symbol mark => exact .symbol mark

/-! ### Errors -/

variable (L)

/-- Errors of one kind are alike if the tokens in them are. No misuse of a tree but the building of an empty name
is like anything. -/
inductive SyntaxError.Like : SyntaxError → SyntaxError → Prop where
  | unexpectedToken {expected expected' found found' : Token} (hexpected : expected.Like L expected')
      (hfound : found.Like L found') : Like (unexpectedToken expected found) (unexpectedToken expected' found')
  | missingToken {expected expected' : Token} (hexpected : expected.Like L expected') :
      Like (missingToken expected) (missingToken expected')
  | expectedIdentifier : Like expectedIdentifier expectedIdentifier
  | expectedExpression : Like expectedExpression expectedExpression
  | expectedSeparator : Like expectedSeparator expectedSeparator
  | unexpectedEnd : Like unexpectedEnd unexpectedEnd
  | nestingTooDeep (limit : Nat) : Like (nestingTooDeep limit) (nestingTooDeep limit)
  | emptyName : Like (tree .emptyName) (tree .emptyName)

variable {L}

theorem SyntaxError.Like.eq_of_exact {a b : SyntaxError} (h : a.Like .exact b) : a = b := by
  cases h with
  | unexpectedToken hexpected hfound => rw [hexpected.eq_of_exact, hfound.eq_of_exact]
  | missingToken hexpected => rw [hexpected.eq_of_exact]
  | _ => rfl

/-! ### Trees -/

variable (L)

/-- Trees are alike if they have one shape, with the same kinds and operators and with leaves that are alike. -/
inductive Node.Like : Node → Node → Prop where
  | number {x y : Binary64} (h : L.number x y) : Like (ofNumber x) (ofNumber y)
  | identifier (kind : IdentifierKind) {a b : Identifier} (h : L.name a b) :
      Like (identifier kind a) (identifier kind b)
  | operation (code : OperatorCode) {as bs : List Node} (height : Nat) (hlength : as.length = bs.length)
      (hoperands : ∀ {a b}, (a, b) ∈ as.zip bs → Like a b) : Like (operation code as height) (operation code bs height)

variable {L}

namespace Node

theorem Like.height {a b : Node} (h : a.Like L b) : a.height = b.height := by
  cases h <;> rfl

theorem Like.over (operator : Operator) {as bs : List Node} (h : List.Forall₂ (Node.Like L) as bs) :
    (Node.over operator as).Like L (Node.over operator bs) := by
  have hzip := List.forall₂_iff_zip.1 h
  rw [Node.over, Node.over, heightOver_congr (h.imp fun _ _ hnode => hnode.height)]
  exact .operation _ _ hzip.1 hzip.2

theorem Like.eq_of_exact {a b : Node} (h : a.Like .exact b) : a = b := by
  induction h with
  | number h => exact congrArg _ h
  | identifier kind h => exact congrArg _ h
  | @operation code as bs height hlength _ ih =>
      have hsame : List.Forall₂ Eq as bs := List.forall₂_iff_zip.2 ⟨hlength, ih⟩
      rw [List.forall₂_eq_eq_eq] at hsame
      rw [hsame]

end Node

end FormulaCompiler
