import FormulaCompiler.Proofs.Acceptance
import FormulaCompiler.Proofs.Grammar.Leaves
import FormulaCompiler.Proofs.Lexer.Lines
import FormulaCompiler.Proofs.Lexer.Tokens
import FormulaCompiler.Proofs.Listing.Decode

/-!
# Listings determine their trees

Main statement: the listing of a tree decodes to the tree, if no number in it is a NaN and no name is
written over more than one line, as is so for every tree that comes out of a source (`decode_text`).
-/

namespace FormulaCompiler

namespace Token

variable {token : Token}

theorem WellFormed.named (h : token.WellFormed) : token.Named := by
  cases token with
  | identifier name => exact h.1
  | _ => trivial

theorem grown_leaves (token : Token) : token.LeavesHold Node.Grown := by
  cases token with
  | number value => exact .number value (.of value)
  | identifier name => exact fun kind => .identifier kind name
  | _ => trivial

theorem WellFormed.printable_leaves (h : token.WellFormed) : token.LeavesHold Node.Printable := by
  cases token with
  | number value => exact .number h
  | identifier name =>
      intro kind
      apply Node.Printable.identifier
      intro hmem
      exact absurd (h.2 _ hmem) (by decide)
  | _ => trivial

end Token

namespace Parser

variable {start : Span} {source : Source} {scanning parsing : Bool} {node : Node}

theorem ok_of_mapError {ε ε' α : Type} {f : ε → ε'} {result : Except ε α} {value : α}
    (h : result.mapError f = .ok value) : result = .ok value := by
  cases result with
  | error error => cases h
  | ok value' =>
      cases h
      rfl

/-- What the parser gives for a source, it gives for well-formed tokens. -/
theorem exists_parse_of_engine (h : (engine parsing start (Lexer.scan scanning source)).1 = .ok node) :
    ∃ tokens log, (∀ token ∈ tokens, token.value.WellFormed) ∧ (parse start tokens parsing log).1 = .ok node := by
  rw [engine] at h
  split at h
  · cases h
  · rename_i tokens left hexhaust
    exact ⟨tokens, left.log, Lexer.wellFormed_of_exhaust hexhaust, ok_of_mapError h⟩

/-- The trees that come out of a source can be told from their listings. -/
theorem grown_and_printable_of_engine (h : (engine parsing start (Lexer.scan scanning source)).1 = .ok node) :
    node.Grown ∧ node.Printable := by
  obtain ⟨tokens, log, htokens, hparse⟩ := exists_parse_of_engine h
  obtain ⟨sentence, hvalues, -, rfl, -⟩ :=
    exists_sentence_of_parse (fun token hmem => (htokens token hmem).named) hparse
  have hleaves : ∀ token ∈ sentence.tokens, token.WellFormed := by
    rw [hvalues, valuesOf, List.forall_mem_map]
    exact htokens
  exact ⟨sentence.holds_tree (fun _ _ => .operation) fun token _ => token.grown_leaves,
    sentence.holds_tree (fun _ _ => .operation) fun token hmem => (hleaves token hmem).printable_leaves⟩

end Parser

namespace Listing

/-- **A listing decodes to its tree.** -/
theorem decode_text (unit : String) (hunit : '\n' ∉ unit.toList) :
    (∀ node : Node, node.Grown → node.Printable → decode (text unit node) = some node) ∧
    ∀ (start : Span) (source : Source) (scanning parsing : Bool) (node : Node),
      (Parser.engine parsing start (Lexer.scan scanning source)).1 = .ok node →
        decode (text unit node) = some node := by
  refine ⟨fun node => decode_text_of_printable unit hunit, ?_⟩
  intro start source scanning parsing node h
  obtain ⟨hgrown, hprintable⟩ := Parser.grown_and_printable_of_engine h
  exact decode_text_of_printable unit hunit hgrown hprintable

/-- An operation with the code of no operator, over a call with numbers of both kinds. -/
def foreignTree : Node :=
  .operation ⟨9⟩ [.over .call [.identifier .function ⟨"f g"⟩, .number ⟨0x4000000000000000⟩ .integer,
    .number ⟨0x3fe0000000000000⟩ .double], .operation ⟨-1⟩ [] 1] 3

/-- A name with a minus sign in front of it. -/
def negation : Source := .ofText "negation" "-x"

theorem exhaust_negation : ∃ left, (Lexer.scan false negation).exhaust =
    (.ok [⟨.symbol .minus, ⟨"negation", {}, ⟨1, 2⟩⟩⟩, ⟨.identifier ⟨"x"⟩, ⟨"negation", ⟨1, 2⟩, ⟨1, 3⟩⟩⟩], left) := by
  have hsource : Lexer.ofSource negation = ⟨⟨"negation", ['-', 'x', '\n'], none, {}⟩, false⟩ := by
    rw [Lexer.ofSource, CharStream.ofSource, negation, Source.reading_ofText]
    rfl
  have hminus : (Lexer.ofSource negation).next? = (some (.ok ⟨.symbol .minus, ⟨"negation", {}, ⟨1, 2⟩⟩⟩),
      ⟨⟨"negation", ['x', '\n'], none, ⟨1, 2⟩⟩, false⟩) := by
    rw [hsource]
    rfl
  have hname : Lexer.next? ⟨⟨"negation", ['x', '\n'], none, ⟨1, 2⟩⟩, false⟩ =
      (some (.ok ⟨.identifier ⟨"x"⟩, ⟨"negation", ⟨1, 2⟩, ⟨1, 3⟩⟩⟩),
        ⟨⟨"negation", ['\n'], none, ⟨1, 3⟩⟩, false⟩) := by
    have hword : Lexer.wordToken (String.singleton 'x') = .identifier ⟨"x"⟩ := Lexer.wordToken_ofList ['x']
    rw [← hword]
    rfl
  have hend : Lexer.next? ⟨⟨"negation", ['\n'], none, ⟨1, 3⟩⟩, false⟩ =
      (none, ⟨⟨"negation", [], none, ⟨2, 1⟩⟩, false⟩) := rfl
  rw [Lexer.scan, Lexer.answers_of_some hminus, Lexer.answers_of_some hname, Lexer.answers_of_none hend,
    Scan.exhaust, Scan.remainingTokens_of_token rfl, Scan.remainingTokens_of_token rfl,
    Scan.remainingTokens_of_none rfl]
  exact ⟨_, rfl⟩

theorem engine_negation {start : Span} : (Parser.engine false start (Lexer.scan false negation)).1 =
    .ok (.over .negate [.identifier .variable ⟨"x"⟩]) := by
  obtain ⟨left, h⟩ := exhaust_negation
  rw [Parser.engine, h]
  rfl

/-- Neither a code without an operator nor a name with a blank in it is mistaken for anything else. -/
theorem decode_text_foreignTree :
    decode (text "prog" foreignTree) = some foreignTree ∧
    decode (text "prog" (.over .negate [.identifier .variable ⟨"x"⟩])) =
      some (.over .negate [.identifier .variable ⟨"x"⟩]) := by
  have hunit : '\n' ∉ "prog".toList := by decide
  have hgrown : foreignTree.Grown := by
    apply Node.Grown.operation
    simp only [List.forall_mem_cons]
    refine ⟨.operation ?_, .operation (by simp), by simp⟩
    simp only [List.forall_mem_cons]
    exact ⟨.identifier _ _, .number _ _, .number _ _, by simp⟩
  have hprintable : foreignTree.Printable := by
    apply Node.Printable.operation
    simp only [List.forall_mem_cons]
    refine ⟨.operation ?_, .operation (by simp), by simp⟩
    simp only [List.forall_mem_cons]
    exact ⟨.identifier (by decide), .number (by decide), .number (by decide), by simp⟩
  exact ⟨(decode_text "prog" hunit).1 foreignTree hgrown hprintable,
    (decode_text "prog" hunit).2 default negation false false _ engine_negation⟩

end Listing

end FormulaCompiler
