import Mathlib.Data.List.TakeWhile
import FormulaCompiler.Lexer.Mode

/-!
# Scanning a line by maximal munch

The tokens of a line without modes and lookahead: blanks are skipped, two slashes end the line, and
anything else begins a lexeme that is as long as it can be. After an error nothing more of the line is
scanned. A line knows nothing of the lines around it.
-/

namespace FormulaCompiler.MaximalMunch

/-- A token or an error without its place, and what is left of the line after it. -/
abbrev Lexeme := Except LexError Token × List Char

def blanks : List Char := [' ', '\t', '\n', '\r', '\x0c']

/-- The symbols of two characters, by the first of them. The second is an equals sign. -/
def pairedSymbol? : Char → Option Symbol
  | '=' => some .equal
  | '!' => some .notEqual
  | '<' => some .lessOrEqual
  | '>' => some .greaterOrEqual
  | _ => none

/-- The symbols of one character. -/
def plainSymbol? : Char → Option Symbol
  | '=' => some .assign
  | '<' => some .less
  | '>' => some .greater
  | '+' => some .plus
  | '-' => some .minus
  | '*' => some .times
  | '/' => some .slash
  | '%' => some .percent
  | '^' => some .caret
  | ',' => some .comma
  | ';' => some .semicolon
  | '(' => some .openParen
  | ')' => some .closeParen
  | _ => none

/-- A run of letters, digits and underscores: a keyword if it spells one in any case, and otherwise a name
with the spelling it has. -/
def word (letters : List Char) : Token :=
  if letters.map Char.toLower = ['c', 'o', 'n', 's', 't'] then .keyword .constDecl
  else if letters.map Char.toLower = ['l', 'e', 't'] then .keyword .letDecl
  else if letters.map Char.toLower = ['f', 'n'] then .keyword .fnDecl
  else .identifier ⟨String.ofList letters⟩

/-- The token of a double, if there is one. -/
def ofDouble : Option Binary64 → Except LexError Token
  | some value => .ok (.number value)
  | none => .error .numberOverflow

/-- A number with the given digits before and behind its point: the double that it denotes. -/
def number (whole fraction : List Char) : Except LexError Token :=
  ofDouble (Decimal.ofDigits whole fraction).toBinary64?

/-- The rest of a literal after its digits before the point. -/
def literal (whole : List Char) : List Char → Lexeme
  | '.' :: places =>
      let fraction := places.takeWhile Char.isDigit
      (if fraction = [] then .error .missingFraction else number whole fraction, places.dropWhile Char.isDigit)
  | rest => (number whole [], rest)

/-- The lexeme of a symbol. -/
def symbol (c : Char) (rest : List Char) : Lexeme :=
  match rest.head?, pairedSymbol? c with
  | some '=', some paired => (.ok (.symbol paired), rest.tail)
  | _, _ =>
      match plainSymbol? c with
      | some plain => (.ok (.symbol plain), rest)
      | none => if c = '!' then (.error (.expected '='), rest) else (.error (.badChar c), c :: rest)

/-- The lexeme that begins with a character that is no blank and opens no comment. -/
def lexeme (c : Char) (rest : List Char) : Lexeme :=
  if c.isAlpha then (.ok (word (c :: rest.takeWhile Lexer.isWordChar)), rest.dropWhile Lexer.isWordChar)
  else if c.isDigit then literal (c :: rest.takeWhile Char.isDigit) (rest.dropWhile Char.isDigit)
  else symbol c rest

variable {c : Char} {whole rest : List Char}

/-! ### Literals -/

theorem literal_nil : literal whole [] = (number whole [], []) := rfl

theorem literal_point : literal whole ('.' :: rest) =
    (if rest.takeWhile Char.isDigit = [] then .error .missingFraction
      else number whole (rest.takeWhile Char.isDigit), rest.dropWhile Char.isDigit) := rfl

theorem literal_of_ne_point (hc : c ≠ '.') : literal whole (c :: rest) = (number whole [], c :: rest) := by
  unfold literal
  split
  · rename_i heq
    exact absurd (List.cons.inj heq).1 hc
  · rfl

/-! ### Symbols -/

theorem symbol_of_paired {paired : Symbol} (h : pairedSymbol? c = some paired) :
    symbol c ('=' :: rest) = (.ok (.symbol paired), rest) := by
  rw [symbol, List.head?_cons, h]
  rfl

theorem symbol_of_plain {plain : Symbol} (halone : rest.head? = some '=' → pairedSymbol? c = none)
    (hplain : plainSymbol? c = some plain) : symbol c rest = (.ok (.symbol plain), rest) := by
  unfold symbol
  split
  · rename_i hhead hpaired
    rw [halone hhead] at hpaired
    simp at hpaired
  · rw [hplain]

theorem symbol_of_none (halone : rest.head? = some '=' → pairedSymbol? c = none)
    (hplain : plainSymbol? c = none) :
    symbol c rest = if c = '!' then (.error (.expected '='), rest) else (.error (.badChar c), c :: rest) := by
  unfold symbol
  split
  · rename_i hhead hpaired
    rw [halone hhead] at hpaired
    simp at hpaired
  · rw [hplain]

theorem lexeme_of_symbol (halpha : c.isAlpha = false) (hdigit : c.isDigit = false) :
    lexeme c rest = symbol c rest := by
  rw [lexeme, halpha, hdigit]
  rfl

/-! ### Lines -/

theorem literal_suffix (whole rest : List Char) : (literal whole rest).2 <:+ rest := by
  unfold literal
  split
  · exact List.IsSuffix.trans (List.dropWhile_suffix _) (List.suffix_cons _ _)
  · exact List.suffix_rfl

theorem symbol_suffix (c : Char) (rest : List Char) :
    (symbol c rest).2 <:+ rest ∨ symbol c rest = (.error (.badChar c), c :: rest) := by
  unfold symbol
  split
  · exact .inl (List.tail_suffix rest)
  · split
    · exact .inl List.suffix_rfl
    · split
      · exact .inl List.suffix_rfl
      · exact .inr rfl

/-- A lexeme takes its first character, unless no lexeme begins with it. -/
theorem lexeme_suffix (c : Char) (rest : List Char) :
    (lexeme c rest).2 <:+ rest ∨ lexeme c rest = (.error (.badChar c), c :: rest) := by
  unfold lexeme
  split
  · exact .inl (List.dropWhile_suffix _)
  · split
    · exact .inl (List.IsSuffix.trans (literal_suffix _ _) (List.dropWhile_suffix _))
    · exact symbol_suffix c rest

theorem lexeme_subset (c : Char) (rest : List Char) : (lexeme c rest).2 ⊆ c :: rest := by
  cases lexeme_suffix c rest with
  | inl h => exact List.subset_cons_of_subset c h.subset
  | inr h => rw [h]; exact List.Subset.refl _

theorem suffix_of_lexeme {token : Token} {more : List Char} (h : lexeme c rest = (.ok token, more)) :
    more <:+ rest := by
  have hsuffix := lexeme_suffix c rest
  rw [h] at hsuffix
  exact hsuffix.resolve_right (by simp)

/-- The tokens of a line, up to its first error if there is one. -/
def scanLine : List Char → List (Except LexError Token)
  | [] => []
  | c :: rest =>
      if c ∈ blanks then scanLine rest
      else if c = '/' ∧ rest.head? = some '/' then []
      else
        match _hlexeme : lexeme c rest with
        | (.ok token, more) => .ok token :: scanLine more
        | (.error error, _) => [.error error]
  termination_by line => line.length
  decreasing_by
    · exact Nat.lt_succ_self _
    · exact Nat.lt_succ_of_le (suffix_of_lexeme _hlexeme).length_le

theorem scanLine_of_token {token : Token} {more : List Char} (hblank : c ∉ blanks)
    (hcomment : ¬ (c = '/' ∧ rest.head? = some '/')) (hlexeme : lexeme c rest = (.ok token, more)) :
    scanLine (c :: rest) = .ok token :: scanLine more := by
  rw [scanLine, if_neg hblank, if_neg hcomment]
  split
  · rename_i hok
    rw [hlexeme] at hok
    cases hok
    rfl
  · rename_i herror
    rw [hlexeme] at herror
    cases herror

theorem scanLine_of_error {error : LexError} {more : List Char} (hblank : c ∉ blanks)
    (hcomment : ¬ (c = '/' ∧ rest.head? = some '/')) (hlexeme : lexeme c rest = (.error error, more)) :
    scanLine (c :: rest) = [.error error] := by
  rw [scanLine, if_neg hblank, if_neg hcomment]
  split
  · rename_i hok
    rw [hlexeme] at hok
    cases hok
  · rename_i herror
    rw [hlexeme] at herror
    cases herror
    rfl

/-! ### Lexemes on their own -/

variable {others left : List Char} {p : Char → Bool} {token : Token}

/-- What stands in front of the rest of a run is the whole run. -/
theorem run_alone (h : rest = others ++ rest.dropWhile p) :
    others = rest.takeWhile p ∧ others.takeWhile p = others ∧ others.dropWhile p = [] := by
  have hothers : others = rest.takeWhile p := by
    apply List.append_cancel_right
    exact h.symm.trans List.takeWhile_append_dropWhile.symm
  have hall : ∀ d ∈ others, p d = true := by
    rw [hothers]
    exact fun d hmem => List.mem_takeWhile_imp hmem
  exact ⟨hothers, List.takeWhile_eq_self_iff.2 hall, List.dropWhile_eq_nil_iff.2 hall⟩

theorem literal_alone (hrest : rest = others ++ left)
    (h : literal (c :: rest.takeWhile Char.isDigit) (rest.dropWhile Char.isDigit) = (.ok token, left)) :
    literal (c :: others.takeWhile Char.isDigit) (others.dropWhile Char.isDigit) = (.ok token, []) := by
  have hsplit : rest.takeWhile Char.isDigit ++ rest.dropWhile Char.isDigit = rest := List.takeWhile_append_dropWhile
  generalize hdropped : rest.dropWhile Char.isDigit = dropped at h hsplit
  unfold literal at h
  split at h
  · rename_i places
    obtain ⟨hvalue, rfl⟩ := Prod.mk.inj h
    have hdigits : ∀ d ∈ rest.takeWhile Char.isDigit, d.isDigit = true := fun d hmem => List.mem_takeWhile_imp hmem
    have hothers : others = rest.takeWhile Char.isDigit ++ '.' :: places.takeWhile Char.isDigit := by
      apply List.append_cancel_right
      rw [← hrest, List.append_assoc, List.cons_append, List.takeWhile_append_dropWhile, hsplit]
    have htake : others.takeWhile Char.isDigit = rest.takeWhile Char.isDigit := by
      rw [hothers, List.takeWhile_append_of_pos hdigits, List.takeWhile_cons_of_neg (by decide), List.append_nil]
    have hdrop : others.dropWhile Char.isDigit = '.' :: places.takeWhile Char.isDigit := by
      rw [hothers, List.dropWhile_append_of_pos hdigits, List.dropWhile_cons_of_neg (by decide)]
    have hplaces : ∀ d ∈ places.takeWhile Char.isDigit, d.isDigit = true := fun d hmem => List.mem_takeWhile_imp hmem
    rw [htake, hdrop, literal_point, List.takeWhile_eq_self_iff.2 hplaces, List.dropWhile_eq_nil_iff.2 hplaces]
    exact congrArg (·, []) hvalue
  · obtain ⟨hnumber, rfl⟩ := Prod.mk.inj h
    rw [← hdropped] at hrest
    obtain ⟨hothers, htake, hdrop⟩ := run_alone hrest
    rw [htake, hdrop, literal_nil, hothers, hnumber]

theorem symbol_alone (hrest : rest = others ++ left) (h : symbol c rest = (.ok token, left)) :
    symbol c others = (.ok token, []) := by
  unfold symbol at h
  split at h
  · rename_i paired hhead hpaired
    obtain ⟨hvalue, rfl⟩ := Prod.mk.inj h
    cases hvalue
    obtain ⟨more, rfl⟩ := List.head?_eq_some_iff.1 hhead
    obtain rfl : others = ['='] := List.append_cancel_right hrest.symm
    exact symbol_of_paired hpaired
  · split at h
    · rename_i plain hplain
      obtain ⟨hvalue, rfl⟩ := Prod.mk.inj h
      cases hvalue
      obtain rfl : others = [] := List.append_cancel_right hrest.symm
      exact symbol_of_plain (by simp) hplain
    · split at h <;> cases h

/-- A lexeme is the whole of what stands in front of the rest that it leaves. -/
theorem lexeme_alone (hrest : rest = others ++ left) (h : lexeme c rest = (.ok token, left)) :
    lexeme c others = (.ok token, []) := by
  unfold lexeme at h ⊢
  split at h
  · rename_i halpha
    obtain ⟨hvalue, rfl⟩ := Prod.mk.inj h
    obtain ⟨hothers, htake, hdrop⟩ := run_alone hrest
    rw [if_pos halpha, htake, hdrop, hothers, hvalue]
  · rename_i halpha
    rw [if_neg halpha]
    split at h
    · rename_i hdigit
      rw [if_pos hdigit]
      exact literal_alone hrest h
    · rename_i hdigit
      rw [if_neg hdigit]
      exact symbol_alone hrest h

/-- The characters of a lexeme are scanned to its token. -/
theorem scanLine_alone (hblank : c ∉ blanks) (hcomment : ¬ (c = '/' ∧ rest.head? = some '/'))
    (hrest : rest = others ++ left) (h : lexeme c rest = (.ok token, left)) : scanLine (c :: others) = [.ok token] := by
  have hcomment : ¬ (c = '/' ∧ others.head? = some '/') := by
    rintro ⟨hc, hhead⟩
    obtain ⟨more, rfl⟩ := List.head?_eq_some_iff.1 hhead
    exact hcomment ⟨hc, by rw [hrest, List.cons_append, List.head?_cons]⟩
  rw [scanLine_of_token hblank hcomment (lexeme_alone hrest h), scanLine]

end FormulaCompiler.MaximalMunch
