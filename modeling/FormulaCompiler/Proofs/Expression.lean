import FormulaCompiler.Proofs.Printing
import Mathlib.Data.List.Nodup

/-!
# S-expressions determine trees

An s-expression shows neither the kinds of names nor the heights of operations. It still determines them in a tree
that comes out of a source. Operators, names and numbers end where a blank or a parenthesis begins, so there is one
way to take an s-expression apart, whatever is behind it (`Legible.deciphered`), and trees with one s-expression are
spelled with the same tokens. From these tokens a tree is parsed again with all that it consists of, and they are
parsed to one tree only (`eq_of_text_eq`).
-/

namespace FormulaCompiler

/-! ### Words -/

/-- Whether a character can stand in an operator, a name or a number of an s-expression. -/
def inWord (c : Char) : Bool := c != ' ' && c != '(' && c != ')'

/-- Whether a word ends in front of some text. -/
def WordEnds (rest : List Char) : Prop := ∀ c, rest.head? = some c → inWord c = false

variable {word word' rest rest' : List Char}

theorem wordEnds_nil : WordEnds [] := fun _ h => nomatch h

theorem wordEnds_cons {c : Char} (h : inWord c = false) : WordEnds (c :: rest) := fun _ hhead => Option.some.inj hhead ▸ h

theorem inWord_of {p : Char → Bool} (hblank : p ' ' = false) (hopen : p '(' = false) (hclose : p ')' = false) {c : Char}
    (hc : p c = true) : inWord c = true := by
  have hne {d : Char} (hd : p d = false) : c ≠ d := by
    rintro rfl
    rw [hc] at hd
    contradiction
  simp [inWord, hne hblank, hne hopen, hne hclose]

/-- What is in front of the end of a word can be told from what is behind it. -/
theorem word_append_inj (hword : ∀ c ∈ word, inWord c = true) (hword' : ∀ c ∈ word', inWord c = true)
    (hrest : WordEnds rest) (hrest' : WordEnds rest') (h : word ++ rest = word' ++ rest') :
    word = word' ∧ rest = rest' := by
  have hsplit {word rest : List Char} (hword : ∀ c ∈ word, inWord c = true) (hrest : WordEnds rest) :
      (word ++ rest).takeWhile inWord = word := by
    rw [List.takeWhile_append_of_pos hword]
    cases rest with
    | nil => exact List.append_nil _
    | cons c rest =>
        rw [List.takeWhile_cons_of_neg (by simp [hrest c rfl]), List.append_nil]
  have heq : word = word' := by rw [← hsplit hword hrest, h, hsplit hword' hrest']
  exact ⟨heq, List.append_cancel_left (heq ▸ h)⟩

theorem Operator.inWord_text (operator : Operator) : ∀ c ∈ operator.text.toList, inWord c = true := by
  apply List.all_eq_true.1
  cases operator <;> rfl

theorem Operator.text_injective : Function.Injective Operator.text := by
  intro operator other h
  exact List.inj_on_of_nodup_map (by decide : (Operator.all.map Operator.text).Nodup) (mem_all operator) (mem_all other) h

namespace Token

variable {token other : Token}

theorem scanLine_lexeme (h : token.Writable) : MaximalMunch.scanLine token.lexeme.toList = [.ok token] := by
  have hscan := MaximalMunch.scanLine_lexeme h MaximalMunch.parted_nil
  rwa [List.append_nil, MaximalMunch.scanLine] at hscan

theorem Writable.lexeme_ne_nil (h : token.Writable) : token.lexeme.toList ≠ [] := by
  intro hnil
  have hscan := scanLine_lexeme h
  rw [hnil, MaximalMunch.scanLine] at hscan
  cases hscan

theorem Writable.eq_of_lexeme (h : token.Writable) (hother : other.Writable)
    (hlexeme : token.lexeme.toList = other.lexeme.toList) : token = other := by
  have hscan := scanLine_lexeme h
  rw [hlexeme, scanLine_lexeme hother] at hscan
  cases hscan
  rfl

end Token

/-! ### Trees that can be read -/

namespace Node

/-- A leaf is shown as a token that is what its lexeme is scanned to. -/
structure Shows (token : Token) (node : Node) : Prop where
  text : node.text = token.lexeme
  spelling : node.spelling = ⟨.atom, [token]⟩
  writable : token.Writable
  word : ∀ c ∈ token.lexeme.toList, inWord c = true

/-- A tree of operators over leaves that are shown as tokens. -/
inductive Legible : Node → Prop where
  | leaf {token : Token} {node : Node} (h : Shows token node) : Legible node
  | operation (operator : Operator) {operands : List Node} (hoperands : ∀ operand ∈ operands, Legible operand) :
      Legible (.over operator operands)

/-- Whether a tree is spelled like every tree with the same s-expression, whatever is behind the two. -/
def Deciphered (node : Node) : Prop :=
  ∀ other : Node, other.Legible → ∀ rest rest' : List Char, WordEnds rest → WordEnds rest' →
    node.text.toList ++ rest = other.text.toList ++ rest' → node.spelling = other.spelling ∧ rest = rest'

variable {node other : Node} {operands others : List Node} {token token' : Token}

theorem toList_text_over (operator : Operator) (operands : List Node) (rest : List Char) :
    (Node.over operator operands).text.toList ++ rest =
      '(' :: (operator.text.toList ++ ((operandsText operands).toList ++ ')' :: rest)) := by
  rw [Node.over, text, OperatorCode.text, Operator.ofCode?_code, String.toList_append, String.toList_append,
    String.toList_append, List.append_assoc, List.append_assoc, List.append_assoc]
  rfl

theorem toList_operandsText_cons (operand : Node) (operands : List Node) (rest : List Char) :
    (operandsText (operand :: operands)).toList ++ rest =
      ' ' :: (operand.text.toList ++ ((operandsText operands).toList ++ rest)) := by
  rw [operandsText, String.toList_append, String.toList_append, List.append_assoc, List.append_assoc]
  rfl

theorem wordEnds_operandsText (operands : List Node) (rest : List Char) :
    WordEnds ((operandsText operands).toList ++ ')' :: rest) := by
  cases operands with
  | nil => exact wordEnds_cons rfl
  | cons operand operands =>
      rw [toList_operandsText_cons]
      exact wordEnds_cons rfl

theorem Shows.spelling_eq (h : Shows token node) (h' : Shows token' other) (hrest : WordEnds rest)
    (hrest' : WordEnds rest') (htext : node.text.toList ++ rest = other.text.toList ++ rest') :
    node.spelling = other.spelling ∧ rest = rest' := by
  rw [h.text, h'.text] at htext
  obtain ⟨hlexeme, hrests⟩ := word_append_inj h.word h'.word hrest hrest' htext
  have htoken := h.writable.eq_of_lexeme h'.writable hlexeme
  rw [h.spelling, h'.spelling, htoken]
  exact ⟨rfl, hrests⟩

/-- A leaf does not begin like an operation. -/
theorem Shows.ne_over (h : Shows token node) (operator : Operator) (operands : List Node) :
    node.text.toList ++ rest ≠ (Node.over operator operands).text.toList ++ rest' := by
  obtain ⟨first, letters, hletters⟩ := List.exists_cons_of_ne_nil h.writable.lexeme_ne_nil
  intro htext
  rw [h.text, hletters, toList_text_over, List.cons_append] at htext
  have hword := h.word first (hletters ▸ .head _)
  rw [(List.cons.inj htext).1] at hword
  contradiction

theorem spellings_eq_of_operandsText (hoperands : ∀ operand ∈ operands, operand.Deciphered)
    (hothers : ∀ other ∈ others, other.Legible)
    (htext : (operandsText operands).toList ++ ')' :: rest = (operandsText others).toList ++ ')' :: rest') :
    operands.map spelling = others.map spelling ∧ rest = rest' := by
  induction operands generalizing others with
  | nil =>
      cases others with
      | nil => exact ⟨rfl, (List.cons.inj htext).2⟩
      | cons other others =>
          rw [toList_operandsText_cons] at htext
          cases htext
  | cons operand operands ih =>
      rw [List.forall_mem_cons] at hoperands
      rw [toList_operandsText_cons] at htext
      cases others with
      | nil => cases htext
      | cons other others =>
          rw [List.forall_mem_cons] at hothers
          rw [toList_operandsText_cons] at htext
          obtain ⟨hspelling, hmore⟩ := hoperands.1 other hothers.1 _ _ (wordEnds_operandsText _ _)
            (wordEnds_operandsText _ _) (List.cons.inj htext).2
          obtain ⟨hspellings, hrests⟩ := ih hoperands.2 hothers.2 hmore
          exact ⟨congrArg₂ List.cons hspelling hspellings, hrests⟩

/-- There is one way to take an s-expression apart. -/
theorem Legible.deciphered (h : node.Legible) : node.Deciphered := by
  induction h with
  | leaf hleaf =>
      intro other hother rest rest' hrest hrest' htext
      cases hother with
      | leaf hother => exact hleaf.spelling_eq hother hrest hrest' htext
      | operation operator _ => exact absurd htext (hleaf.ne_over operator _)
  | operation operator hoperands ih =>
      intro other hother rest rest' hrest hrest' htext
      cases hother with
      | leaf hother => exact absurd htext.symm (hother.ne_over operator _)
      | operation operator' hothers =>
          rw [toList_text_over, toList_text_over] at htext
          obtain ⟨hoperator, hmore⟩ := word_append_inj operator.inWord_text operator'.inWord_text
            (wordEnds_operandsText _ _) (wordEnds_operandsText _ _) (List.cons.inj htext).2
          obtain rfl := Operator.text_injective (String.toList_injective hoperator)
          obtain ⟨hspellings, hrests⟩ := spellings_eq_of_operandsText ih hothers hmore
          rw [spelling_over, spelling_over, hspellings]
          exact ⟨rfl, hrests⟩

theorem Legible.spelling_eq (h : node.Legible) (hother : other.Legible) (htext : node.text = other.text) :
    node.spelling = other.spelling :=
  (h.deciphered other hother [] [] wordEnds_nil wordEnds_nil (by rw [htext])).1

/-! ### Trees of sources -/

theorem shows_number {value : Binary64} (h : (Token.number value).Writable) :
    Shows (.number value) (.ofNumber value) := by
  refine ⟨rfl, rfl, h, ?_⟩
  obtain ⟨d, hread, -⟩ := Binary64.exists_decimal_of_text h.1 h.2
  have hdigit {c : Char} : c.isDigit = true → inWord c = true := inWord_of rfl rfl rfl
  obtain ⟨whole, -, hwhole, ⟨htext, -⟩ | ⟨places, htext, -, hplaces, -⟩⟩ := Decimal.exists_digits_of_ofText? hread
  · rw [Token.lexeme, htext]
    exact fun c hmem => hdigit (hwhole c hmem)
  · rw [Token.lexeme, htext, List.forall_mem_append, List.forall_mem_cons]
    exact ⟨fun c hmem => hdigit (hwhole c hmem), rfl, fun c hmem => hdigit (hplaces c hmem)⟩

theorem shows_identifier (kind : IdentifierKind) {name : Identifier} (h : (Token.identifier name).Writable) :
    Shows (.identifier name) (.identifier kind name) := by
  refine ⟨rfl, rfl, h, ?_⟩
  obtain ⟨-, first, letters, hspelling, hfirst, hletters⟩ := h
  rw [Token.lexeme, hspelling, List.forall_mem_cons]
  exact ⟨inWord_of rfl rfl rfl hfirst, fun c hmem => inWord_of rfl rfl rfl (hletters c hmem)⟩

theorem legible_leaves (h : token.Writable) : token.LeavesHold Legible := by
  cases token with
  | number value => exact .leaf (shows_number h)
  | identifier name => exact fun kind => .leaf (shows_identifier kind h)
  | _ => trivial

theorem legible_of_engine {source : Source} {start : Span} {scanning parsing : Bool}
    (h : (Parser.engine parsing start (Lexer.scan scanning source)).1 = .ok node) : node.Legible := by
  obtain ⟨sentence, rfl, -, hwritable, -⟩ := Parser.exists_sentence_of_engine source start scanning parsing h
  exact sentence.holds_tree (fun operator _ => .operation operator) fun token hmem => legible_leaves (hwritable token hmem)

/-- **The s-expression of a tree that comes out of a source determines the tree**, and with it every listing of it. -/
theorem eq_of_text_eq {source source' : Source} {start start' : Span} {scanning scanning' parsing parsing' : Bool}
    (h : (Parser.engine parsing start (Lexer.scan scanning source)).1 = .ok node)
    (hother : (Parser.engine parsing' start' (Lexer.scan scanning' source')).1 = .ok other)
    (htext : node.text = other.text) :
    node = other ∧ ∀ unit : String, (Listing.text unit node).toUTF8 = (Listing.text unit other).toUTF8 := by
  have hspelling := (legible_of_engine h).spelling_eq (legible_of_engine hother) htext
  have hnode := Parser.engine_spelling source start scanning parsing h "" default false false
  rw [hspelling, Parser.engine_spelling source' start' scanning' parsing' hother] at hnode
  cases hnode
  exact ⟨rfl, fun unit => rfl⟩

/-- The derivation of `const k = 1` and one more statement. -/
def declaredThen (last : Phrase .atom) (trailing : Bool) : Sentence :=
  ⟨.bound .constant ⟨"k"⟩ (loose (.number (.ofInt 1))), [.bare (loose last)], trailing⟩
where
  loose (atom : Phrase .atom) : Phrase .expression := .ofSum (.ofProduct (.ofPower (.ofSigned (.ofAtom atom))))

def plainName : Sentence := declaredThen (.name ⟨"k"⟩) false

def enclosedName : Sentence := declaredThen (.enclosed (declaredThen.loose (.name ⟨"k"⟩))) true

/-- Parentheses and a semicolon at the end change nothing, and `k` is loaded as a constant in both. -/
theorem eq_of_text_eq_enclosed :
    (Parser.engine false default (Lexer.scan false (.ofText "plain" "const k = 1 ; k"))).1 = .ok plainName.tree ∧
    (Parser.engine false default (Lexer.scan false (.ofText "enclosed" "const k = 1 ; ( k ) ;"))).1 =
      .ok enclosedName.tree ∧
    plainName.tree.text = "(seq (const k 1) k)" ∧ plainName.tree = enclosedName.tree := by
  have hplain : written plainName.tokens = "const k = 1 ; k" := by decide +kernel
  have henclosed : written enclosedName.tokens = "const k = 1 ; ( k ) ;" := by decide +kernel
  have hname : (MaximalMunch.word ['k']).Writable := MaximalMunch.writable_word rfl (List.forall_mem_nil _)
  have hnumber : (Token.number (.ofInt 1)).Writable := ⟨by decide +kernel, by decide +kernel⟩
  have hwritablePlain : ∀ token ∈ plainName.tokens, token.Writable := by
    show ∀ token ∈ [.keyword .constDecl, MaximalMunch.word ['k'], .symbol .assign, .number (.ofInt 1),
      .symbol .semicolon, MaximalMunch.word ['k']], token.Writable
    simp only [List.forall_mem_cons]
    exact ⟨trivial, hname, trivial, hnumber, trivial, hname, List.forall_mem_nil _⟩
  have hwritableEnclosed : ∀ token ∈ enclosedName.tokens, token.Writable := by
    show ∀ token ∈ [.keyword .constDecl, MaximalMunch.word ['k'], .symbol .assign, .number (.ofInt 1),
      .symbol .semicolon, .symbol .openParen, MaximalMunch.word ['k'], .symbol .closeParen, .symbol .semicolon],
      token.Writable
    simp only [List.forall_mem_cons]
    exact ⟨trivial, hname, trivial, hnumber, trivial, trivial, hname, trivial, trivial, List.forall_mem_nil _⟩
  have hengine := Parser.engine_of_sentence default false false "plain" hwritablePlain (by decide) (by decide)
  have hother := Parser.engine_of_sentence default false false "enclosed" hwritableEnclosed (by decide) (by decide)
  refine ⟨hplain ▸ hengine, henclosed ▸ hother, by decide +kernel, ?_⟩
  exact (eq_of_text_eq hengine hother (by decide +kernel)).1

end Node

end FormulaCompiler
