import FormulaCompiler.Proofs.Grammar.Spelling
import FormulaCompiler.Proofs.Lexer.Spacing
import FormulaCompiler.Proofs.Outcome

/-!
# Printing a tree

A tree that comes out of a source is written as the lexemes of its spelling. This text is a source of the same
tree, and no source of that tree does without any of its tokens (`engine_written`).
-/

namespace FormulaCompiler

open Lexer (tokensOf errorsOf)

theorem Token.Writable.named {token : Token} (h : token.Writable) : token.Named := by
  cases token with
  | identifier name =>
      obtain ⟨-, first, letters, hspelling, -⟩ := h
      intro hempty
      rw [hempty] at hspelling
      cases hspelling
  | _ => trivial

theorem Sentence.tokens_ne_nil (sentence : Sentence) : sentence.tokens ≠ [] :=
  List.append_ne_nil_of_left_ne_nil (List.append_ne_nil_of_left_ne_nil Statement.tokens_ne_nil _) _

namespace Lexer

theorem map_unplaced_of_errorsOf {items : List Lexed} (h : errorsOf items = []) :
    items.map unplaced = (valuesOf (tokensOf items)).map .ok := by
  induction items with
  | nil => rfl
  | cons item items ih =>
      cases item with
      | error error => cases h
      | ok token => exact congrArg (.ok token.value :: ·) (ih h)

theorem writable_of_mem_tokensOf {s : Source} (hreadable : s.reading.failure = none) {token : Spanned Token}
    (hmem : token ∈ tokensOf (ofSource s).items) : token.value.Writable := by
  obtain ⟨line, -, hline⟩ := exists_line_of_mem hreadable (mem_tokensOf.1 hmem)
  exact MaximalMunch.writable_of_mem_scanLine hline

end Lexer

namespace Parser

variable (source : Source) (start : Span) (scanning parsing : Bool)

theorem errorsOf_of_engine {node : Node} (h : (engine parsing start (Lexer.scan scanning source)).1 = .ok node) :
    errorsOf (Lexer.ofSource source).items = [] := by
  by_contra herrors
  rw [engine_of_errors source start scanning parsing herrors] at h
  cases h

/-- A tree comes from a derivation of the tokens of its source. -/
theorem exists_sentence_of_engine {node : Node} (h : (engine parsing start (Lexer.scan scanning source)).1 = .ok node) :
    ∃ sentence : Sentence, sentence.tree = node ∧ sentence.tokens = valuesOf (tokensOf (Lexer.ofSource source).items) ∧
      (∀ token ∈ sentence.tokens, token.Writable) ∧ sentence.nesting ≤ 128 ∧ node.height ≤ 512 := by
  have herrors := errorsOf_of_engine source start scanning parsing h
  obtain ⟨log, hengine⟩ := engine_of_tokens source start scanning parsing herrors
  obtain ⟨sentence, htokens, hnesting, htree, hheight⟩ :=
    exists_sentence_of_parse (fun token hmem => named_of_mem_tokensOf source hmem) (ok_of_mapError (hengine ▸ h))
  refine ⟨sentence, htree, htokens, ?_, hnesting, hheight⟩
  rw [htokens, valuesOf, List.forall_mem_map]
  exact fun token hmem => Lexer.writable_of_mem_tokensOf (Lexer.readable_of_errorsOf herrors) hmem

/-- A source that is scanned to the tokens of a sentence is a source of its tree. -/
theorem engine_of_results {sentence : Sentence}
    (hresults : Lexer.results (Lexer.ofSource source) = sentence.tokens.map .ok) (hnesting : sentence.nesting ≤ 128)
    (hheight : sentence.tree.height ≤ 512) :
    (engine parsing start (Lexer.scan scanning source)).1 = .ok sentence.tree := by
  rw [← Lexer.map_unplaced_items] at hresults
  obtain ⟨herrors, hvalues⟩ := Lexer.tokensOf_of_unplaced hresults
  obtain ⟨log, hengine⟩ := engine_of_tokens source start scanning parsing herrors
  have hparse := (parse_sentence start parsing log hvalues.symm fun token hmem => named_of_mem_tokensOf source hmem).1
    ⟨hnesting, hheight⟩
  rw [hengine, hparse]
  rfl

/-- What a sentence is written as is a source of its tree. -/
theorem engine_of_sentence (name : String) {sentence : Sentence} (hwritable : ∀ token ∈ sentence.tokens, token.Writable)
    (hnesting : sentence.nesting ≤ 128) (hheight : sentence.tree.height ≤ 512) :
    (engine parsing start (Lexer.scan scanning (.ofText name (written sentence.tokens)))).1 = .ok sentence.tree :=
  engine_of_results _ start scanning parsing (Lexer.results_written name hwritable) hnesting hheight

/-- Only what is read of a source is in its tree, not its name. -/
theorem engine_of_reading {node : Node} (h : (engine parsing start (Lexer.scan scanning source)).1 = .ok node)
    {other : Source} (hreading : other.reading = source.reading) (start' : Span) (scanning' parsing' : Bool) :
    (engine parsing' start' (Lexer.scan scanning' other)).1 = .ok node := by
  have herrors := errorsOf_of_engine source start scanning parsing h
  have hreadable := Lexer.readable_of_errorsOf herrors
  obtain ⟨sentence, rfl, htokens, -, hnesting, hheight⟩ := exists_sentence_of_engine source start scanning parsing h
  have hresults : Lexer.results (Lexer.ofSource other) = sentence.tokens.map .ok := by
    rw [htokens, ← Lexer.map_unplaced_of_errorsOf herrors, Lexer.map_unplaced_items,
      Lexer.results_of_readable hreadable, Lexer.results_of_readable (hreading ▸ hreadable), hreading]
  exact engine_of_results other start' scanning' parsing' hresults hnesting hheight

/-- A tree that comes out of a source comes out of what it is spelled as. -/
theorem engine_spelling {node : Node} (h : (engine parsing start (Lexer.scan scanning source)).1 = .ok node)
    (name : String) (start' : Span) (scanning' parsing' : Bool) :
    (engine parsing' start' (Lexer.scan scanning' (.ofText name (written node.spelling.tokens)))).1 = .ok node := by
  obtain ⟨sentence, rfl, -, hwritable, hnesting, hheight⟩ := exists_sentence_of_engine source start scanning parsing h
  obtain ⟨spelled, htree, htokens, hspelledNesting, hsublist⟩ := sentence.exists_spelled
  rw [← htokens, ← htree]
  exact engine_of_sentence start' scanning' parsing' name (fun token hmem => hwritable token (hsublist.subset hmem))
    (Nat.le_trans hspelledNesting hnesting) (htree ▸ hheight)

/-- **A tree is parsed again from what it is written as**, and every source of the tree has all tokens that it is
written with. -/
theorem engine_written {node : Node} (h : (engine parsing start (Lexer.scan scanning source)).1 = .ok node) :
    (∀ (name : String) (start : Span) (scanning parsing : Bool),
      (engine parsing start (Lexer.scan scanning (.ofText name (written node.spelling.tokens)))).1 = .ok node) ∧
    ∀ (other : Source) (start : Span) (scanning parsing : Bool),
      (engine parsing start (Lexer.scan scanning other)).1 = .ok node →
        List.Sublist node.spelling.tokens (valuesOf (tokensOf (Lexer.ofSource other).items)) := by
  refine ⟨engine_spelling source start scanning parsing h, ?_⟩
  intro other start' scanning' parsing' hother
  obtain ⟨sentence, rfl, hvalues, -⟩ := exists_sentence_of_engine other start' scanning' parsing' hother
  obtain ⟨spelled, -, htokens, -, hsublist⟩ := sentence.exists_spelled
  rw [← htokens, ← hvalues]
  exact hsublist

/-- The derivation of `(a) - (b - (c))`. -/
def grouped : Sentence := ⟨.bare (.ofSum (minus (enclosed (named "a")) (enclosed (.ofSum inner)))), [], false⟩
where
  named (text : String) : Phrase .expression := .ofSum (.ofProduct (.ofPower (.ofSigned (.ofAtom (.name ⟨text⟩)))))
  enclosed (phrase : Phrase .expression) : Phrase .product := .ofPower (.ofSigned (.ofAtom (.enclosed phrase)))
  minus (left right : Phrase .product) : Phrase .sum := .added (.ofProduct left) .minus right
  inner : Phrase .sum := minus (.ofPower (.ofSigned (.ofAtom (.name ⟨"b"⟩)))) (enclosed (named "c"))

def groupedTree : Node :=
  .over .subtract [.identifier .variable ⟨"a"⟩,
    .over .subtract [.identifier .variable ⟨"b"⟩, .identifier .variable ⟨"c"⟩]]

/-- Only the parentheses around a right operand are kept. -/
theorem engine_written_grouped :
    (engine false default (Lexer.scan false (.ofText "grouped" "( a ) - ( b - ( c ) )"))).1 = .ok groupedTree ∧
    (engine false default (Lexer.scan false (.ofText "again" "a - ( b - c )"))).1 = .ok groupedTree := by
  have hwritten : written grouped.tokens = "( a ) - ( b - ( c ) )" := by decide
  have hspelled : written groupedTree.spelling.tokens = "a - ( b - c )" := by decide
  have hname {c : Char} (hc : c.isAlpha = true) : (MaximalMunch.word [c]).Writable :=
    MaximalMunch.writable_word hc (List.forall_mem_nil _)
  have hwritable : ∀ token ∈ grouped.tokens, token.Writable := by
    show ∀ token ∈ [.symbol .openParen, MaximalMunch.word ['a'], .symbol .closeParen, .symbol .minus,
      .symbol .openParen, MaximalMunch.word ['b'], .symbol .minus, .symbol .openParen, MaximalMunch.word ['c'],
      .symbol .closeParen, .symbol .closeParen], token.Writable
    simp only [List.forall_mem_cons]
    exact ⟨trivial, hname rfl, trivial, trivial, trivial, hname rfl, trivial, trivial, hname rfl, trivial, trivial,
      List.forall_mem_nil _⟩
  have hengine := engine_of_sentence default false false "grouped" hwritable (by decide) (by decide)
  rw [hwritten] at hengine
  have hagain := (engine_written _ default false false hengine).1 "again" default false false
  exact ⟨hengine, hspelled ▸ hagain⟩

end Parser

end FormulaCompiler
