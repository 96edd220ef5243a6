import FormulaCompiler.Proofs.Equality
import FormulaCompiler.Proofs.Lexer.LowerCase
import FormulaCompiler.Proofs.Outcome
import FormulaCompiler.Proofs.Parser.Alike

/-!
# What makes no difference

The case of letters makes no difference to the lexer but in the spelling of names, and to the parser it makes none that
can be seen by comparing trees; neither does where the tokens stand. Main statement: `insensitive`. Its first part comes
from scanning in lower case (`Lexer.items_lowered`), its second from running the parser twice (`Parser.parse_alike`)
under the likeness that compares as tokens are compared (`Likeness.numerical`).
-/

namespace FormulaCompiler

open Lexer (tokensOf errorsOf)

/-! ### Answers that differ in case -/

/-- Whether two answers of a lexer are the same: equal tokens at one place, or one error. -/
inductive SameAnswer : Lexed → Lexed → Prop where
  | token {a b : Spanned Token} (hvalue : (a.value == b.value) = true) (hspan : a.span = b.span) :
      SameAnswer (.ok a) (.ok b)
  | error (error : Spanned LexError) : SameAnswer (.error error) (.error error)

/-- Whether two sequences of tokens are pairwise equal, wherever the tokens stand. -/
def SameTokens (tokens tokens' : List (Spanned Token)) : Prop :=
  List.Forall₂ (fun a b => (a.value == b.value) = true) tokens tokens'

theorem Binary64.same_self {x : Binary64} (h : x.isNaN = false) : (x == x) = true := by
  show sameNumber x x = true
  rw [sameNumber, h, beq_self_eq_true]
  rfl

theorem Token.same_of_lowered {a b : Token} (h : a.lowered = b.lowered) (ha : a.WellFormed) : (a == b) = true := by
  cases a with
  | identifier name =>
      cases b with
      | identifier other =>
          have hkey : name.key = other.key := congrArg Identifier.spelling (Token.identifier.inj h)
          show (name.key == other.key) = true
          rw [hkey, beq_self_eq_true]
      | _ => cases h
  | keyword word =>
      cases b <;> cases h
      exact beq_self_eq_true word
  | number value =>
      cases b <;> cases h
      exact Binary64.same_self ha
  | symbol mark =>
      cases b <;> cases h
      exact beq_self_eq_true mark

/-- Sources that differ in the case of letters are scanned to the same answers. -/
theorem sameAnswers_of_lowered {s s' : Source} (h : s.lowered = s'.lowered) :
    List.Forall₂ SameAnswer (Lexer.ofSource s).items (Lexer.ofSource s').items := by
  have hlowered : (Lexer.ofSource s).items.map Lexer.loweredAnswer =
      (Lexer.ofSource s').items.map Lexer.loweredAnswer := by
    rw [← Lexer.items_lowered, ← Lexer.items_lowered, h]
  rw [← List.forall₂_eq_eq_eq, List.forall₂_map_left_iff, List.forall₂_map_right_iff, List.forall₂_iff_zip] at hlowered
  refine List.forall₂_iff_zip.2 ⟨hlowered.1, ?_⟩
  intro answer answer' hmem
  have hsame := hlowered.2 hmem
  have hanswer := (List.of_mem_zip hmem).1
  cases answer with
  | ok token =>
      cases answer' with
      | ok token' =>
          simp only [Lexer.loweredAnswer, Except.ok.injEq, Spanned.mk.injEq] at hsame
          have hwellFormed := Parser.wellFormed_of_mem_tokensOf s (Lexer.mem_tokensOf.2 hanswer)
          exact .token (Token.same_of_lowered hsame.1 hwellFormed) hsame.2
      | error error => cases hsame
  | error error =>
      cases answer' with
      | ok token => cases hsame
      | error error' =>
          cases hsame
          exact .error error

theorem errorsOf_eq_of_sameAnswers {items items' : List Lexed} (h : List.Forall₂ SameAnswer items items') :
    errorsOf items = errorsOf items' := by
  induction h with
  | nil => rfl
  | cons hanswer _ ih =>
      cases hanswer with
      | token => exact ih
      | error error => exact congrArg (List.cons error) ih

theorem tokensOf_of_sameAnswers {items items' : List Lexed} (h : List.Forall₂ SameAnswer items items') :
    SameTokens (tokensOf items) (tokensOf items') := by
  induction h with
  | nil => exact .nil
  | cons hanswer _ ih =>
      cases hanswer with
      | token hvalue => exact .cons hvalue ih
      | error error => exact ih

/-! ### Parses of equal tokens -/

/-- Whether two errors are of one kind, with equal tokens in them. -/
def SyntaxError.same : SyntaxError → SyntaxError → Bool
  | unexpectedToken expected found, unexpectedToken expected' found' => expected == expected' && found == found'
  | missingToken expected, missingToken expected' => expected == expected'
  | error, error' => decide (error = error')

/-- The likeness of names without regard to case and of numbers by value. -/
def Likeness.numerical (place : Span → Span → Prop) : Likeness where
  name a b := (a == b) = true
  number x y := (x == y) = true
  place := place
  key_eq h := beq_iff_eq.1 h

variable {place : Span → Span → Prop}

theorem Token.like_numerical_iff {a b : Token} : a.Like (.numerical place) b ↔ (a == b) = true := by
  constructor
  · intro h
    cases h with
    | identifier h => exact h
    | number h => exact h
    | keyword word => exact beq_self_eq_true word
    | symbol mark => exact beq_self_eq_true mark
  · intro h
    cases a with
    | identifier name =>
        cases b with
        | identifier other => exact .identifier h
        | _ => cases h
    | number value =>
        cases b with
        | number other => exact .number h
        | _ => cases h
    | keyword word =>
        cases b with
        | keyword other =>
            obtain rfl : word = other := beq_iff_eq.1 h
            exact .keyword word
        | _ => cases h
    | symbol mark =>
        cases b with
        | symbol other =>
            obtain rfl : mark = other := beq_iff_eq.1 h
            exact .symbol mark
        | _ => cases h

theorem SyntaxError.same_of_like {a b : SyntaxError} (h : a.Like (.numerical place) b) : a.same b = true := by
  cases h with
  | unexpectedToken hexpected hfound =>
      rw [same, Token.like_numerical_iff.1 hexpected, Token.like_numerical_iff.1 hfound, Bool.and_self]
  | missingToken hexpected => exact Token.like_numerical_iff.1 hexpected
  | nestingTooDeep limit => exact decide_eq_true (Eq.refl (nestingTooDeep limit))
  | _ => rfl

theorem Node.same_of_like {a b : Node} (h : a.Like (.numerical place) b) : (a == b) = true := by
  show same a b = true
  induction h with
  | number h =>
      have hequal := Binary64.beq_iff.1 h
      exact (same_number _ _ _ _).2 ⟨hequal, NumberKind.of_eq_of_equal hequal⟩
  | identifier kind h => exact (same_identifier _ _ _ _).2 ⟨rfl, beq_iff_eq.1 h⟩
  | operation code height hlength _ ih =>
      exact (same_operation _ _ _ _).2 ⟨rfl, rfl, List.forall₂_iff_zip.2 ⟨hlength, ih⟩⟩

/-- Whether two spans are those of the tokens at one index, or where the units start if there are no tokens. -/
inductive SamePlace (start start' : Span) (tokens tokens' : List (Spanned Token)) : Span → Span → Prop where
  | atStart (h : tokens = []) (h' : tokens' = []) : SamePlace start start' tokens tokens' start start'
  | atToken (index : Nat) {token token' : Spanned Token} (h : tokens[index]? = some token)
      (h' : tokens'[index]? = some token') : SamePlace start start' tokens tokens' token.span token'.span

/-- Whether two answers of the parser are the same: equal trees, or errors of one kind, with equal tokens in them and
at the same token. -/
inductive SameResult (start start' : Span) (tokens tokens' : List (Spanned Token)) :
    Except EngineError Node → Except EngineError Node → Prop where
  | tree {tree tree' : Node} (h : (tree == tree') = true) : SameResult start start' tokens tokens' (.ok tree) (.ok tree')
  | error {error error' : Spanned SyntaxError} (hvalue : error.value.same error'.value = true)
      (hplace : SamePlace start start' tokens tokens' error.span error'.span) :
      SameResult start start' tokens tokens' (.error (.invalid (.ofSyntaxError "Syntax error" error)))
        (.error (.invalid (.ofSyntaxError "Syntax error" error')))

namespace Parser

variable {start start' : Span} {tokens tokens' : List (Spanned Token)}

theorem placed_of_same (h : SameTokens tokens tokens') :
    List.Forall₂ (Likeness.numerical (SamePlace start start' tokens tokens')).Placed tokens tokens' := by
  rw [SameTokens, List.forall₂_iff_get] at h
  rw [List.forall₂_iff_get]
  refine ⟨h.1, fun index hindex hindex' => ⟨Token.like_numerical_iff.2 (h.2 index hindex hindex'), ?_⟩⟩
  exact SamePlace.atToken index (List.getElem?_eq_getElem hindex) (List.getElem?_eq_getElem hindex')

theorem same_of_likeAnswers {answer answer' : Except (Spanned SyntaxError) Node}
    (h : LikeAnswers (.numerical (SamePlace start start' tokens tokens')) answer answer')
    (hne : ∀ error, answer = .error error → ∀ misuse, error.value ≠ .tree misuse)
    (hne' : ∀ error, answer' = .error error → ∀ misuse, error.value ≠ .tree misuse) :
    SameResult start start' tokens tokens' (answer.mapError .ofSyntaxError) (answer'.mapError .ofSyntaxError) := by
  have hinvalid {error : Spanned SyntaxError} (hne : ∀ misuse, error.value ≠ .tree misuse) :
      EngineError.ofSyntaxError error = .invalid (.ofSyntaxError "Syntax error" error) := by
    rw [EngineError.ofSyntaxError]
    split
    · exact absurd ‹_› (hne _)
    · rfl
  cases h with
  | tree hnode => exact .tree (Node.same_of_like hnode)
  | error hvalue hspan =>
      rw [Except.mapError, Except.mapError, hinvalid (hne _ rfl), hinvalid (hne' _ rfl)]
      exact .error (SyntaxError.same_of_like hvalue) hspan

/-- The parser has one answer for sources with equal tokens. -/
theorem engine_same {s s' : Source} (herrors : errorsOf (Lexer.ofSource s).items = [])
    (herrors' : errorsOf (Lexer.ofSource s').items = [])
    (htokens : SameTokens (tokensOf (Lexer.ofSource s).items) (tokensOf (Lexer.ofSource s').items))
    (start start' : Span) (scanning scanning' parsing parsing' : Bool) :
    SameResult start start' (tokensOf (Lexer.ofSource s).items) (tokensOf (Lexer.ofSource s').items)
      (engine parsing start (Lexer.scan scanning s)).1 (engine parsing' start' (Lexer.scan scanning' s')).1 := by
  have hstart (hnone : tokensOf (Lexer.ofSource s).items = []) :
      SamePlace start start' (tokensOf (Lexer.ofSource s).items) (tokensOf (Lexer.ofSource s').items) start start' := by
    rw [SameTokens, hnone] at htokens
    exact .atStart hnone (List.forall₂_nil_left_iff.1 htokens)
  obtain ⟨log, hengine⟩ := engine_of_tokens s start scanning parsing herrors
  obtain ⟨log', hengine'⟩ := engine_of_tokens s' start' scanning' parsing' herrors'
  rw [hengine, hengine']
  apply same_of_likeAnswers (parse_alike (placed_of_same htokens) hstart parsing parsing' log log')
  · exact fun error hparse => ne_tree_of_parse (fun token hmem => named_of_mem_tokensOf s hmem) hparse
  · exact fun error hparse => ne_tree_of_parse (fun token hmem => named_of_mem_tokensOf s' hmem) hparse

end Parser

/-- **Neither the case of letters nor the places of tokens make a difference.** -/
theorem insensitive :
    (∀ s s' : Source, s.lowered = s'.lowered →
      List.Forall₂ SameAnswer (Lexer.ofSource s).items (Lexer.ofSource s').items) ∧
    ∀ (s s' : Source) (start start' : Span) (scanning scanning' parsing parsing' : Bool),
      errorsOf (Lexer.ofSource s).items = [] → errorsOf (Lexer.ofSource s').items = [] →
      SameTokens (tokensOf (Lexer.ofSource s).items) (tokensOf (Lexer.ofSource s').items) →
      SameResult start start' (tokensOf (Lexer.ofSource s).items) (tokensOf (Lexer.ofSource s').items)
        (Parser.engine parsing start (Lexer.scan scanning s)).1
        (Parser.engine parsing' start' (Lexer.scan scanning' s')).1 := by
  refine ⟨fun s s' => sameAnswers_of_lowered, ?_⟩
  intro s s' start start' scanning scanning' parsing parsing' herrors herrors' htokens
  exact Parser.engine_same herrors herrors' htokens start start' scanning scanning' parsing parsing'

/-- A name in upper case is parsed to a tree that equals the one in lower case, wherever the units start. -/
theorem insensitive_negation :
    let shouted := Source.ofText "negation" "-X"
    List.Forall₂ SameAnswer (Lexer.ofSource Listing.negation).items (Lexer.ofSource shouted).items ∧
    ∃ tree tree', (Parser.engine false default (Lexer.scan false Listing.negation)).1 = .ok tree ∧
      (Parser.engine false (.first "elsewhere") (Lexer.scan false shouted)).1 = .ok tree' ∧ (tree == tree') = true := by
  intro shouted
  have hbytes : Listing.negation.bytes.data.map lowerByte = shouted.bytes.data.map lowerByte := by decide +kernel
  have hlowered : Listing.negation.lowered = shouted.lowered :=
    congrArg (fun bytes => (⟨"negation", ⟨bytes⟩, none⟩ : Source)) hbytes
  have hanswers := insensitive.1 _ _ hlowered
  have herrors := Parser.errorsOf_negation
  have hresult := insensitive.2 _ _ default (.first "elsewhere") false false false false herrors
    ((errorsOf_eq_of_sameAnswers hanswers).symm.trans herrors) (tokensOf_of_sameAnswers hanswers)
  refine ⟨hanswers, ?_⟩
  rw [Listing.engine_negation] at hresult ⊢
  generalize (Parser.engine false (.first "elsewhere") (Lexer.scan false shouted)).1 = answer at hresult ⊢
  cases hresult with
  | tree hsame => exact ⟨_, _, rfl, rfl, hsame⟩

end FormulaCompiler
