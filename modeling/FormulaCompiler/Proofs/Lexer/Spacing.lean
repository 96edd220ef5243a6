import FormulaCompiler.Proofs.Lexer.Lexemes
import FormulaCompiler.Proofs.Scan
import FormulaCompiler.Proofs.Source.LowerCase

/-!
# Tokens with blanks between them

Any blanks may stand between tokens, line breaks among them, and a keyword may be written in letters of either
case. `Spaced` says which texts some tokens can be written as. A blank cuts such a text in two (`Spaced.split`), so
that each of its lines is the text of some of the tokens, with or without the carriage returns at its end, and the
lexer gives all the tokens back (`answers_of_spaced`).
-/

namespace FormulaCompiler

/-- Whether a token can be spelled with some characters. -/
def Token.SpelledBy (chars : List Char) : Token → Prop
  | identifier name => chars = name.spelling.toList
  | keyword word => chars.map Char.toLower = word.text.toList
  | number value => chars = value.text.toList
  | symbol mark => chars = mark.text.toList

/-- Tokens in their order, at least one blank behind each of them but the last, and perhaps more around them. -/
inductive Spaced : List Token → List Char → Prop where
  | done : Spaced [] []
  | blank {tokens : List Token} {c : Char} {rest : List Char} (hblank : c ∈ MaximalMunch.blanks)
      (h : Spaced tokens rest) : Spaced tokens (c :: rest)
  | token {token : Token} {tokens : List Token} {chars rest : List Char} (hchars : token.SpelledBy chars)
      (hrest : MaximalMunch.Parted rest) (h : Spaced tokens rest) : Spaced (token :: tokens) (chars ++ rest)

variable {token : Token} {tokens : List Token} {chars rest front more line : List Char}

/-! ### Spellings -/

theorem Token.spelledBy_lexeme (token : Token) : token.SpelledBy token.lexeme.toList := by
  cases token with
  | keyword word => cases word <;> rfl
  | _ => rfl

/-- A keyword is spelled with letters only. -/
theorem Keyword.isAlpha_of_spelled {word : Keyword} (h : chars.map Char.toLower = word.text.toList) :
    ∀ c ∈ chars, c.isAlpha = true := by
  have hletters : (word.text.toList.all Char.isAlpha) = true := by cases word <;> rfl
  intro c hmem
  rw [← Char.isAlpha_toLower_eq_isAlpha]
  exact List.all_eq_true.1 hletters _ (h ▸ List.mem_map_of_mem hmem)

namespace MaximalMunch

theorem word_of_spelled {keyword : Keyword} (h : chars.map Char.toLower = keyword.text.toList) :
    word chars = .keyword keyword := by
  rw [word, h]
  cases keyword <;> rfl

/-- However a token is spelled, it is scanned in front of a blank. -/
theorem scanLine_spelled (htoken : token.Writable) (hchars : token.SpelledBy chars) (hrest : Parted rest) :
    scanLine (chars ++ rest) = .ok token :: scanLine rest := by
  cases token with
  | keyword keyword =>
      have hletters := Keyword.isAlpha_of_spelled hchars
      cases chars with
      | nil => cases keyword <;> cases hchars
      | cons first letters =>
          rw [List.forall_mem_cons] at hletters
          rw [List.cons_append, scanLine_word hletters.1 (fun c hmem => Lexer.isWordChar_of_isAlpha (hletters.2 c hmem)) hrest,
            word_of_spelled hchars]
  | _ =>
      obtain rfl := hchars
      exact scanLine_lexeme htoken hrest

theorem notMem_blanks_of_spelled (htoken : token.Writable) (hchars : token.SpelledBy chars) :
    ∀ c ∈ chars, c ∉ blanks := by
  cases token with
  | keyword keyword => exact fun c hmem => notMem_blanks_of_isAlpha (Keyword.isAlpha_of_spelled hchars c hmem)
  | _ =>
      obtain rfl := hchars
      exact notMem_blanks_of_mem_lexeme htoken

theorem ne_nil_of_spelled (htoken : token.Writable) (hchars : token.SpelledBy chars) : chars ≠ [] := by
  rintro rfl
  have hscan := scanLine_spelled htoken hchars parted_nil
  rw [List.append_nil, scanLine] at hscan
  cases hscan

end MaximalMunch

/-! ### Spaced tokens -/

namespace Spaced

/-- A blank cuts a text of tokens in two. -/
theorem split {b : Char} (h : Spaced tokens (front ++ b :: more)) (hb : b ∈ MaximalMunch.blanks)
    (htokens : ∀ token ∈ tokens, token.Writable) :
    ∃ left right, tokens = left ++ right ∧ Spaced left front ∧ Spaced right more := by
  generalize htext : front ++ b :: more = text at h
  induction h generalizing front with
  | done => cases (List.append_eq_nil_iff.1 htext).2
  | @blank tokens c rest hblank h ih =>
      cases front with
      | nil =>
          obtain ⟨-, rfl⟩ := List.cons.inj htext
          exact ⟨[], tokens, rfl, .done, h⟩
      | cons d front =>
          obtain ⟨rfl, hrest⟩ := List.cons.inj htext
          obtain ⟨left, right, rfl, hleft, hright⟩ := ih htokens hrest
          exact ⟨left, right, rfl, .blank hblank hleft, hright⟩
  | @token token tokens chars rest hchars hrest h ih =>
      rw [List.forall_mem_cons] at htokens
      -- The blank cannot stand among the characters of the token, so that it is behind them.
      have hbehind : ∃ later, front = chars ++ later ∧ rest = later ++ b :: more := by
        obtain ⟨later, hfront, hlater⟩ | ⟨inside, hinside, hmore⟩ := List.append_eq_append_iff.1 htext.symm
        · exact ⟨later, hfront, hlater⟩
        · cases inside with
          | nil =>
              rw [List.append_nil] at hinside
              exact ⟨[], by rw [hinside, List.append_nil], hmore.symm⟩
          | cons c inside =>
              obtain ⟨rfl, -⟩ := List.cons.inj hmore
              have hmem : b ∈ chars := hinside ▸ List.mem_append_right _ List.mem_cons_self
              exact absurd hb (MaximalMunch.notMem_blanks_of_spelled htokens.1 hchars b hmem)
      obtain ⟨later, rfl, rfl⟩ := hbehind
      obtain ⟨left, right, rfl, hleft, hright⟩ := ih htokens.2 rfl
      refine ⟨token :: left, right, rfl, .token hchars (fun c hhead => hrest c ?_) hleft, hright⟩
      rw [List.head?_append, hhead]
      rfl

/-- Blanks alone are no token. -/
theorem eq_nil_of_blanks (h : Spaced tokens chars) (hblanks : ∀ c ∈ chars, c ∈ MaximalMunch.blanks)
    (htokens : ∀ token ∈ tokens, token.Writable) : tokens = [] := by
  induction h with
  | done => rfl
  | blank hblank h ih =>
      rw [List.forall_mem_cons] at hblanks
      exact ih hblanks.2 htokens
  | @token token tokens chars rest hchars hrest h ih =>
      rw [List.forall_mem_cons] at htokens
      obtain ⟨c, letters, rfl⟩ := List.exists_cons_of_ne_nil (MaximalMunch.ne_nil_of_spelled htokens.1 hchars)
      exact absurd (hblanks c (List.mem_append_left _ List.mem_cons_self))
        (MaximalMunch.notMem_blanks_of_spelled htokens.1 hchars c List.mem_cons_self)

/-- The blanks at the end of a text may be left out. -/
theorem of_append_blanks (h : Spaced tokens (chars ++ more)) (hmore : ∀ c ∈ more, c ∈ MaximalMunch.blanks)
    (htokens : ∀ token ∈ tokens, token.Writable) : Spaced tokens chars := by
  cases more with
  | nil => rwa [List.append_nil] at h
  | cons b more =>
      rw [List.forall_mem_cons] at hmore
      obtain ⟨left, right, rfl, hleft, hright⟩ := h.split hmore.1 htokens
      rw [List.forall_mem_append] at htokens
      rw [hright.eq_nil_of_blanks hmore.2 htokens.2, List.append_nil]
      exact hleft

theorem trimmed (h : Spaced tokens line) (htokens : ∀ token ∈ tokens, token.Writable) :
    Spaced tokens (Source.trimmed (String.ofList line)).toList := by
  obtain ⟨tail, htail, hblanks⟩ := (Source.stripped_trimmed (String.ofList line)).tail
  rw [String.toList_ofList] at htail
  rw [htail] at h
  refine h.of_append_blanks (fun c hmem => ?_) htokens
  obtain rfl | rfl := hblanks c hmem <;> decide

/-- Whatever blanks stand between them, tokens are scanned one after the other. -/
theorem scanLine (h : Spaced tokens line) (htokens : ∀ token ∈ tokens, token.Writable) :
    MaximalMunch.scanLine line = tokens.map .ok := by
  induction h with
  | done => rw [MaximalMunch.scanLine, List.map_nil]
  | blank hblank h ih => rw [MaximalMunch.scanLine, if_pos hblank, ih htokens]
  | token hchars hrest h ih =>
      rw [List.forall_mem_cons] at htokens
      rw [MaximalMunch.scanLine_spelled htokens.1 hchars hrest, ih htokens.2, List.map_cons]

/-- The lines of a text are scanned to the tokens of the text. -/
theorem flatMap_scanLine (h : Spaced tokens chars) (htokens : ∀ token ∈ tokens, token.Writable) :
    ((Text.lines chars).flatMap fun line => MaximalMunch.scanLine (Source.trimmed (String.ofList line)).toList) =
      tokens.map .ok := by
  induction chars using Text.lines_induction '\n' generalizing tokens with
  | further line more hline ih =>
      obtain ⟨left, right, rfl, hleft, hright⟩ := h.split (by decide) htokens
      rw [List.forall_mem_append] at htokens
      rw [Text.lines_append hline, List.flatMap_cons, (hleft.trimmed htokens.1).scanLine htokens.1, ih hright htokens.2,
        List.map_append]
  | last line hline =>
      cases line with
      | nil =>
          rw [h.eq_nil_of_blanks (List.forall_mem_nil _) htokens]
          rfl
      | cons c line =>
          rw [Text.lines_of_notMem hline (List.cons_ne_nil c line), List.flatMap_singleton,
            (h.trimmed htokens).scanLine htokens]

theorem written (tokens : List Token) : Spaced tokens (written tokens).toList := by
  induction tokens with
  | nil => exact .done
  | cons token tokens ih =>
      cases tokens with
      | nil =>
          rw [toList_written_singleton, ← List.append_nil token.lexeme.toList]
          exact .token token.spelledBy_lexeme MaximalMunch.parted_nil .done
      | cons second tokens =>
          have hblank : ' ' ∈ MaximalMunch.blanks := by decide
          rw [toList_written_cons]
          exact .token token.spelledBy_lexeme (MaximalMunch.parted_blank hblank) (.blank hblank ih)

end Spaced

namespace Lexer

variable {text : String}

/-- The lexer gives back the tokens of a text. -/
theorem results_spaced (name : String) (h : Spaced tokens text.toList) (htokens : ∀ token ∈ tokens, token.Writable) :
    results (ofSource (.ofText name text)) = tokens.map .ok := by
  rw [results_of_readable (by rw [Source.reading_ofText]), Source.reading_ofText, List.flatMap_map]
  exact h.flatMap_scanLine htokens

/-- Tokens that have been written with one blank between them are given back. -/
theorem results_written (name : String) (htokens : ∀ token ∈ tokens, token.Writable) :
    results (ofSource (.ofText name (written tokens))) = tokens.map .ok :=
  results_spaced name (.written tokens) htokens

/-- **The lexer undoes the writing of tokens**, whatever blanks stand between them and in whatever case the keywords
are written. -/
theorem answers_of_spaced (name : String) (text : String) (tokens : List Token) (htokens : ∀ token ∈ tokens, token.Writable)
    (h : Spaced tokens text.toList) :
    (ofSource (.ofText name text)).answers.map (fun answer => unplaced answer.1) = tokens.map .ok ∧
    ∀ traced, ∃ placed, (scan traced (.ofText name text)).exhaust.1 = .ok placed ∧ placed.map (·.value) = tokens := by
  have hresults := results_spaced name h htokens
  refine ⟨hresults, fun traced => ?_⟩
  rw [← map_unplaced_items] at hresults
  obtain ⟨herrors, hvalues⟩ := tokensOf_of_unplaced hresults
  exact ⟨tokensOf (ofSource (.ofText name text)).items, by rw [exhaust_scan, if_pos herrors], hvalues⟩

/-- The keyword of a declaration, what follows it, and a symbol behind that. -/
def declared : List Token :=
  [.keyword .letDecl, .identifier ⟨"x2"⟩, .symbol .assign, .number ⟨0x3fe0000000000000⟩, .symbol .less]

theorem writable_declared : ∀ token ∈ declared, token.Writable := by
  simp only [declared, List.forall_mem_cons]
  exact ⟨trivial, ⟨by decide +kernel, 'x', ['2'], rfl, rfl, List.all_eq_true.1 rfl⟩, trivial,
    ⟨by decide +kernel, by decide +kernel⟩, trivial, List.forall_mem_nil _⟩

theorem spaced_declared : Spaced declared "lEt\r\n\tx2 = 0.5 \n<".toList := by
  have hnumber : (Token.number ⟨0x3fe0000000000000⟩).SpelledBy ['0', '.', '5'] := by
    have htext : Binary64.text ⟨0x3fe0000000000000⟩ = "0.5" := by decide +kernel
    exact congrArg String.toList htext.symm
  have hlast : Spaced [.symbol .less] (['<'] ++ []) := .token rfl MaximalMunch.parted_nil .done
  have hnext {token : Token} {tokens : List Token} {rest : List Char} (chars : List Char) {c : Char}
      (hchars : token.SpelledBy chars) (hblank : c ∈ MaximalMunch.blanks) (h : Spaced tokens rest) :
      Spaced (token :: tokens) (chars ++ c :: rest) :=
    .token hchars (MaximalMunch.parted_blank hblank) (.blank hblank h)
  exact hnext ['l', 'E', 't'] rfl (by decide) <| .blank (by decide) <| .blank (by decide) <|
    hnext ['x', '2'] rfl (by decide) <| hnext ['='] rfl (by decide) <| hnext _ hnumber (by decide) <|
    .blank (by decide) hlast

/-- The blanks between the lines make no difference, nor do the capital letters of the keyword. -/
theorem answers_of_spaced_declared :
    (∀ token ∈ declared, token.Writable) ∧ Spaced declared "lEt\r\n\tx2 = 0.5 \n<".toList ∧
    (ofSource (.ofText "declared" "lEt\r\n\tx2 = 0.5 \n<")).answers.map (fun answer => unplaced answer.1) =
      [.ok (.keyword .letDecl), .ok (.identifier ⟨"x2"⟩), .ok (.symbol .assign), .ok (.number ⟨0x3fe0000000000000⟩),
        .ok (.symbol .less)] :=
  ⟨writable_declared, spaced_declared, (answers_of_spaced "declared" _ declared writable_declared spaced_declared).1⟩

end Lexer

end FormulaCompiler
