import FormulaCompiler.Proofs.Binary64.Text
import FormulaCompiler.Proofs.Lexer.Places

/-!
# Writing tokens as their lexemes

A token is written as the name, the keyword, the number or the symbol that it is. The tokens that come out of a
source are `Writable`: names are no keywords, and numbers are finite and have no sign. A writable token in front
of a blank is scanned from its lexeme (`scanLine_lexeme`).
-/

namespace FormulaCompiler

def Token.lexeme : Token → String
  | identifier name => name.spelling
  | keyword word => word.text
  | number value => value.text
  | symbol mark => mark.text

/-- Whether a token is what its lexeme is scanned to. -/
def Token.Writable : Token → Prop
  | identifier name => Keyword.ofWord? name.spelling = none ∧
      ∃ first letters, name.spelling.toList = first :: letters ∧ first.isAlpha = true ∧
        ∀ c ∈ letters, Lexer.isWordChar c = true
  | number value => value.isFinite = true ∧ value.isNegative = false
  | _ => True

/-! ### Digits of numbers -/

namespace Decimal

/-- What is read as a decimal are digits, perhaps with a point among them. -/
theorem exists_digits_of_ofText? {text : List Char} {d : Decimal} (h : ofText? text = some d) :
    ∃ whole, whole ≠ [] ∧ (∀ c ∈ whole, c.isDigit = true) ∧
      (text = whole ∧ d = ofDigits whole [] ∨
        ∃ places, text = whole ++ '.' :: places ∧ places ≠ [] ∧ (∀ c ∈ places, c.isDigit = true) ∧
          d = ofDigits whole places) := by
  have hwhole : ∀ c ∈ text.takeWhile Char.isDigit, c.isDigit = true := fun c hmem => List.mem_takeWhile_imp hmem
  have hsplit : text.takeWhile Char.isDigit ++ text.dropWhile Char.isDigit = text := List.takeWhile_append_dropWhile
  unfold ofText? at h
  dsimp only at h
  split at h
  · rename_i hdrop
    split at h
    · cases h
    · rename_i hne
      rw [hdrop, List.append_nil] at hsplit
      exact ⟨_, hne, hwhole, .inl ⟨hsplit.symm, (Option.some.inj h).symm⟩⟩
  · rename_i places hdrop
    split at h
    · cases h
    · rename_i hne
      rw [not_or, not_or, Decidable.not_not, List.all_eq_true] at hne
      rw [hdrop] at hsplit
      exact ⟨_, hne.1, hwhole, .inr ⟨places, hsplit.symm, hne.2.1, hne.2.2, (Option.some.inj h).symm⟩⟩
  · cases h

end Decimal

namespace Binary64

variable {x : Binary64}

/-- A finite number without a sign is written as a decimal that denotes it. -/
theorem exists_decimal_of_text (hfinite : x.isFinite = true) (hsign : x.isNegative = false) :
    ∃ d, Decimal.ofText? x.text.toList = some d ∧ d.toBinary64? = some x := by
  obtain ⟨d, hread, hrank⟩ := Decimal.ofText?_text (Decimal.shortest x.rank)
  rw [Decimal.nearestRank_shortest] at hrank
  have hrank' : x.rank < infinityRank := of_decide_eq_true hfinite
  have hnumber : x.isNaN = false := decide_eq_false (Nat.lt_asymm hrank')
  have htext : x.text = (Decimal.shortest x.rank).text := by
    rw [text, hnumber, hsign, hfinite]
    exact String.empty_append
  refine ⟨d, by rw [htext, hread], ?_⟩
  have hofRank : ofRank x.isNegative x.rank = x := ofRank_rank x
  rw [hsign] at hofRank
  rw [Decimal.toBinary64?, hrank, if_pos hrank', hofRank]

/-- What a decimal denotes is finite and has no sign. -/
theorem finite_of_toBinary64? {d : Decimal} (h : d.toBinary64? = some x) : x.isFinite = true ∧ x.isNegative = false := by
  rw [Decimal.toBinary64?] at h
  split at h
  · rename_i hrank
    have hplace : d.nearestRank < signPlace := Nat.lt_trans hrank (by decide)
    rw [← Option.some.inj h, isFinite, isNegative, rank_ofRank hplace, toNat_bits_ofRank hplace]
    refine ⟨decide_eq_true hrank, decide_eq_false ?_⟩
    rw [if_neg Bool.false_ne_true]
    omega
  · cases h

end Binary64

/-! ### Scanning one lexeme -/

namespace MaximalMunch

variable {first : Char} {letters whole places rest : List Char}

/-- Whether nothing stands in front of the characters that would go on with a lexeme. -/
def Parted (rest : List Char) : Prop := ∀ c, rest.head? = some c → c ∈ blanks

theorem parted_nil : Parted [] := fun c h => by cases h

theorem parted_blank {c : Char} (h : c ∈ blanks) : Parted (c :: rest) := fun _ hhead => Option.some.inj hhead ▸ h

theorem Parted.head?_ne (h : Parted rest) {c : Char} (hc : c ∉ blanks) : rest.head? ≠ some c := fun hhead => hc (h c hhead)

/-- A run of characters ends in front of a blank. -/
theorem Parted.run (h : Parted rest) {p : Char → Bool} (hp : (blanks.all fun c => !p c) = true)
    (hall : ∀ c ∈ letters, p c = true) :
    (letters ++ rest).takeWhile p = letters ∧ (letters ++ rest).dropWhile p = rest := by
  rw [List.takeWhile_append_of_pos hall, List.dropWhile_append_of_pos hall]
  cases rest with
  | nil => exact ⟨List.append_nil _, rfl⟩
  | cons c rest =>
      have hc : ¬ p c = true := by
        have hnot := List.all_eq_true.1 hp c (h c rfl)
        rwa [Bool.not_eq_true', ← Bool.not_eq_true] at hnot
      rw [List.takeWhile_cons_of_neg hc, List.dropWhile_cons_of_neg hc, List.append_nil]
      exact ⟨rfl, rfl⟩

theorem notMem_blanks_of_isAlpha (h : first.isAlpha = true) : first ∉ blanks :=
  Lexer.notMem_blanks_of_isWordChar (Lexer.isWordChar_of_isAlpha h)

theorem notMem_blanks_of_isDigit (h : first.isDigit = true) : first ∉ blanks :=
  Lexer.notMem_blanks_of_isWordChar (Lexer.isWordChar_of_isDigit h)

theorem notMem_blanks_of_all {chars : List Char} (h : (chars.all fun c => !Lexer.isBlank c) = true) :
    ∀ c ∈ chars, c ∉ blanks := by
  intro c hmem hblank
  have hnot := List.all_eq_true.1 h c hmem
  rw [Lexer.isBlank_iff.2 hblank] at hnot
  contradiction

theorem scanLine_word (hfirst : first.isAlpha = true) (hletters : ∀ c ∈ letters, Lexer.isWordChar c = true)
    (hrest : Parted rest) :
    scanLine (first :: (letters ++ rest)) = .ok (word (first :: letters)) :: scanLine rest := by
  obtain ⟨htake, hdrop⟩ := hrest.run (p := Lexer.isWordChar) rfl hletters
  apply scanLine_of_token (notMem_blanks_of_isAlpha hfirst)
  · rintro ⟨rfl, -⟩
    cases hfirst
  · rw [lexeme, if_pos hfirst, htake, hdrop]

/-! ### Numbers -/

theorem isAlpha_of_isDigit (h : first.isDigit = true) : first.isAlpha = false := by
  have hdigit : (decide (first.val ≥ '0'.val) && decide (first.val ≤ '9'.val)) = true := h
  rw [Bool.and_eq_true, decide_eq_true_eq, decide_eq_true_eq] at hdigit
  have hupper : ¬ (first.val ≥ 'A'.val ∧ first.val ≤ 'Z'.val) := fun hupper =>
    absurd (UInt32.le_trans hupper.1 hdigit.2) (by decide)
  have hlower : ¬ first.val ≥ 'a'.val := fun hlower => absurd (UInt32.le_trans hlower hdigit.2) (by decide)
  show (decide (first.val ≥ 'A'.val ∧ first.val ≤ 'Z'.val) ||
    (decide (first.val ≥ 'a'.val) && decide (first.val ≤ 'z'.val))) = false
  rw [decide_eq_false hupper, decide_eq_false hlower]
  rfl

theorem lexeme_digit (hfirst : first.isDigit = true) : lexeme first rest =
    literal (first :: rest.takeWhile Char.isDigit) (rest.dropWhile Char.isDigit) := by
  rw [lexeme, isAlpha_of_isDigit hfirst, if_neg Bool.false_ne_true, if_pos hfirst]

theorem scanLine_literal {token : Token} (hfirst : first.isDigit = true)
    (h : literal (first :: letters.takeWhile Char.isDigit) (letters.dropWhile Char.isDigit) = (.ok token, rest)) :
    scanLine (first :: letters) = .ok token :: scanLine rest := by
  apply scanLine_of_token (notMem_blanks_of_isDigit hfirst)
  · rintro ⟨rfl, -⟩
    cases hfirst
  · rw [lexeme_digit hfirst, h]

theorem literal_parted (whole : List Char) (hrest : Parted rest) : literal whole rest = (number whole [], rest) := by
  cases rest with
  | nil => rfl
  | cons c rest =>
      apply literal_of_ne_point
      rintro rfl
      exact absurd (hrest _ rfl) (by decide)

theorem scanLine_number {x : Binary64} (hfinite : x.isFinite = true) (hsign : x.isNegative = false)
    (hrest : Parted rest) : scanLine (x.text.toList ++ rest) = .ok (.number x) :: scanLine rest := by
  obtain ⟨d, hread, hdouble⟩ := Binary64.exists_decimal_of_text hfinite hsign
  obtain ⟨whole, hne, hwhole, hform⟩ := Decimal.exists_digits_of_ofText? hread
  obtain ⟨first, digits, rfl⟩ := List.exists_cons_of_ne_nil hne
  rw [List.forall_mem_cons] at hwhole
  have hdigit : (blanks.all fun c => !c.isDigit) = true := rfl
  obtain ⟨htext, rfl⟩ | ⟨places, htext, hplaces, hall, rfl⟩ := hform
  · obtain ⟨htake, hdrop⟩ := hrest.run hdigit hwhole.2
    rw [htext]
    apply scanLine_literal hwhole.1
    show literal (first :: (digits ++ rest).takeWhile Char.isDigit) ((digits ++ rest).dropWhile Char.isDigit) = _
    rw [htake, hdrop, literal_parted _ hrest, number, hdouble]
    rfl
  · obtain ⟨htake, hdrop⟩ := hrest.run hdigit hall
    have hfraction : (places ++ rest).takeWhile Char.isDigit ≠ [] := by rwa [htake]
    rw [htext]
    show scanLine (first :: ((digits ++ '.' :: places) ++ rest)) = _
    rw [List.append_assoc]
    apply scanLine_literal hwhole.1
    rw [List.takeWhile_append_of_pos hwhole.2, List.dropWhile_append_of_pos hwhole.2, List.cons_append,
      List.takeWhile_cons_of_neg (by decide), List.dropWhile_cons_of_neg (by decide), List.append_nil,
      literal_point, if_neg hfraction, htake, hdrop, number, hdouble]
    rfl

/-! ### Symbols -/

theorem scanLine_paired {c : Char} {paired : Symbol} (h : pairedSymbol? c = some paired) (halpha : c.isAlpha = false)
    (hdigit : c.isDigit = false) (hblank : c ∉ blanks) :
    scanLine (c :: '=' :: rest) = .ok (.symbol paired) :: scanLine rest := by
  apply scanLine_of_token hblank
  · rintro ⟨-, hhead⟩
    cases hhead
  · rw [lexeme_of_symbol halpha hdigit, symbol_of_paired h]

theorem scanLine_plain {c : Char} {plain : Symbol} (h : plainSymbol? c = some plain) (halpha : c.isAlpha = false)
    (hdigit : c.isDigit = false) (hblank : c ∉ blanks) (hrest : Parted rest) :
    scanLine (c :: rest) = .ok (.symbol plain) :: scanLine rest := by
  apply scanLine_of_token hblank
  · rintro ⟨-, hhead⟩
    exact hrest.head?_ne (by decide) hhead
  · rw [lexeme_of_symbol halpha hdigit, symbol_of_plain (fun hhead => absurd hhead (hrest.head?_ne (by decide))) h]

theorem scanLine_symbol (mark : Symbol) (hrest : Parted rest) :
    scanLine (mark.text.toList ++ rest) = .ok (.symbol mark) :: scanLine rest := by
  cases mark with
  | equal => exact scanLine_paired rfl rfl rfl (by decide)
  | notEqual => exact scanLine_paired rfl rfl rfl (by decide)
  | lessOrEqual => exact scanLine_paired rfl rfl rfl (by decide)
  | greaterOrEqual => exact scanLine_paired rfl rfl rfl (by decide)
  | _ => exact scanLine_plain rfl rfl rfl (by decide) hrest

/-! ### Tokens -/

theorem word_eq_wordToken {spelling : String} (h : spelling.toList = first :: letters) :
    word (first :: letters) = Lexer.wordToken spelling := by
  rw [← h, ← Lexer.wordToken_ofList, String.ofList_toList]

/-- A token in front of a blank is scanned from its lexeme. -/
theorem scanLine_lexeme {token : Token} (h : token.Writable) (hrest : Parted rest) :
    scanLine (token.lexeme.toList ++ rest) = .ok token :: scanLine rest := by
  cases token with
  | identifier name =>
      obtain ⟨hkeyword, first, letters, hspelling, hfirst, hletters⟩ := h
      have hword : word (first :: letters) = .identifier name := by
        rw [word_eq_wordToken hspelling, Lexer.wordToken, hkeyword]
      rw [Token.lexeme, hspelling, List.cons_append, scanLine_word hfirst hletters hrest, hword]
  | keyword word => cases word <;> exact scanLine_word rfl (List.all_eq_true.1 rfl) hrest
  | number value => exact scanLine_number h.1 h.2 hrest
  | symbol mark => exact scanLine_symbol mark hrest

theorem writable_word (hfirst : first.isAlpha = true) (hletters : ∀ c ∈ letters, Lexer.isWordChar c = true) :
    (word (first :: letters)).Writable := by
  rw [word_eq_wordToken (String.toList_ofList), Lexer.wordToken]
  split
  · trivial
  · rename_i hkeyword
    exact ⟨hkeyword, first, letters, String.toList_ofList, hfirst, hletters⟩

theorem writable_of_number {token : Token} (h : number whole places = .ok token) : token.Writable := by
  rw [number] at h
  cases hdouble : (Decimal.ofDigits whole places).toBinary64? with
  | none =>
      rw [hdouble] at h
      cases h
  | some x =>
      rw [hdouble] at h
      cases h
      exact Binary64.finite_of_toBinary64? hdouble

theorem writable_of_lexeme {c : Char} {token : Token} {more : List Char} (h : lexeme c rest = (.ok token, more)) :
    token.Writable := by
  unfold lexeme at h
  split at h
  · rename_i halpha
    cases h
    exact writable_word halpha fun c hmem => List.mem_takeWhile_imp hmem
  · split at h
    · unfold literal at h
      split at h
      · have hvalue := congrArg Prod.fst h
        dsimp only at hvalue
        split at hvalue
        · cases hvalue
        · exact writable_of_number hvalue
      · exact writable_of_number (congrArg Prod.fst h)
    · unfold symbol at h
      repeat' split at h
      all_goals cases h
      all_goals trivial

/-- No blank stands in a lexeme. -/
theorem notMem_blanks_of_mem_lexeme {token : Token} (h : token.Writable) : ∀ c ∈ token.lexeme.toList, c ∉ blanks := by
  cases token with
  | identifier name =>
      obtain ⟨-, first, letters, hspelling, hfirst, hletters⟩ := h
      rw [Token.lexeme, hspelling, List.forall_mem_cons]
      exact ⟨notMem_blanks_of_isAlpha hfirst, fun c hmem => Lexer.notMem_blanks_of_isWordChar (hletters c hmem)⟩
  | keyword word => cases word <;> exact notMem_blanks_of_all rfl
  | number value =>
      obtain ⟨d, hread, -⟩ := Binary64.exists_decimal_of_text h.1 h.2
      obtain ⟨whole, -, hwhole, ⟨htext, -⟩ | ⟨places, htext, -, hplaces, -⟩⟩ := Decimal.exists_digits_of_ofText? hread
      · rw [Token.lexeme, htext]
        exact fun c hmem => notMem_blanks_of_isDigit (hwhole c hmem)
      · rw [Token.lexeme, htext, List.forall_mem_append, List.forall_mem_cons]
        exact ⟨fun c hmem => notMem_blanks_of_isDigit (hwhole c hmem), by decide,
          fun c hmem => notMem_blanks_of_isDigit (hplaces c hmem)⟩
  | symbol mark => cases mark <;> exact notMem_blanks_of_all rfl

/-- The tokens of a line are writable. -/
theorem writable_of_mem_scanLine {line : List Char} {token : Token} (h : .ok token ∈ scanLine line) :
    token.Writable := by
  induction line using scanLine.induct with
  | case1 =>
      rw [scanLine] at h
      exact absurd h List.not_mem_nil
  | case2 c rest hblank ih =>
      rw [scanLine, if_pos hblank] at h
      exact ih h
  | case3 c rest hblank hcomment =>
      rw [scanLine, if_neg hblank, if_pos hcomment] at h
      exact absurd h List.not_mem_nil
  | case4 c rest hblank hcomment first more hlexeme ih =>
      rw [scanLine_of_token hblank hcomment hlexeme] at h
      obtain h | h := List.mem_cons.1 h
      · cases h
        exact writable_of_lexeme hlexeme
      · exact ih h
  | case5 c rest hblank hcomment error more hlexeme =>
      rw [scanLine_of_error hblank hcomment hlexeme] at h
      cases List.mem_singleton.1 h

end MaximalMunch

/-! ### Written tokens -/

/-- Tokens as their lexemes with a blank between them. -/
def written (tokens : List Token) : String := " ".intercalate (tokens.map Token.lexeme)

variable {tokens : List Token} {token : Token}

theorem toList_written_singleton (token : Token) : (written [token]).toList = token.lexeme.toList := by
  rw [written, String.toList_intercalate]
  exact List.intercalate_singleton

theorem toList_written_cons (token second : Token) (tokens : List Token) :
    (written (token :: second :: tokens)).toList =
      token.lexeme.toList ++ ' ' :: (written (second :: tokens)).toList := by
  rw [written, written, String.toList_intercalate, String.toList_intercalate]
  show [' '].intercalate (token.lexeme.toList :: second.lexeme.toList :: _) = _
  rw [List.intercalate_cons_cons, List.append_assoc]
  rfl

end FormulaCompiler
