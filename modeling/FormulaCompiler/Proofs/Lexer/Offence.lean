import FormulaCompiler.Proofs.Lexer.MaximalMunch

/-!
# What spoils a line

Maximal munch reads a line from the front, lexeme by lexeme (`Reaches`), until a lexeme cannot be completed. `Offends`
says for each error which characters of that lexeme are there and what stands behind them, where it should not: a
character, or the end of the line (`offends_of_lexeme`).
-/

namespace FormulaCompiler.MaximalMunch

/-- Whether a line is scanned up to the rest of it, where a lexeme may begin. -/
inductive Reaches : List Char → List Char → Prop where
  | here (line : List Char) : Reaches line line
  | blank {c : Char} {line rest : List Char} (hblank : c ∈ blanks) (h : Reaches line rest) : Reaches (c :: line) rest
  | token {c : Char} {line left rest : List Char} {token : Token} (hblank : c ∉ blanks)
      (hcomment : ¬ (c = '/' ∧ line.head? = some '/')) (hlexeme : lexeme c line = (.ok token, left))
      (h : Reaches left rest) : Reaches (c :: line) rest

/-- Which lexemes cannot be completed, and what stands behind them: the rest of the line begins with the offending
character, or the line ends where another character should stand. -/
inductive Offends : LexError → List Char → List Char → Prop where
  | badChar {c : Char} (hblank : c ∉ blanks) (halpha : c.isAlpha = false) (hdigit : c.isDigit = false)
      (hplain : plainSymbol? c = none) (hbang : c ≠ '!') (rest : List Char) : Offends (.badChar c) [] (c :: rest)
  | expected {rest : List Char} (hrest : rest.head? ≠ some '=') : Offends (.expected '=') ['!'] rest
  | missingFraction {whole rest : List Char} (hne : whole ≠ []) (hwhole : ∀ c ∈ whole, c.isDigit = true)
      (hrest : ∀ c, rest.head? = some c → c.isDigit = false) : Offends .missingFraction (whole ++ ['.']) rest
  | wholeOverflow {whole rest : List Char} (hne : whole ≠ []) (hwhole : ∀ c ∈ whole, c.isDigit = true)
      (hoverflow : number whole [] = .error .numberOverflow)
      (hrest : ∀ c, rest.head? = some c → c.isDigit = false ∧ c ≠ '.') : Offends .numberOverflow whole rest
  | overflow {whole fraction rest : List Char} (hne : whole ≠ []) (hwhole : ∀ c ∈ whole, c.isDigit = true)
      (hplaces : fraction ≠ []) (hfraction : ∀ c ∈ fraction, c.isDigit = true)
      (hoverflow : number whole fraction = .error .numberOverflow)
      (hrest : ∀ c, rest.head? = some c → c.isDigit = false) : Offends .numberOverflow (whole ++ '.' :: fraction) rest

variable {c : Char} {line middle rest taken whole : List Char} {error : LexError}

theorem Reaches.trans (h : Reaches line middle) (hrest : Reaches middle rest) : Reaches line rest := by
  induction h with
  | here line => exact hrest
  | blank hblank h ih => exact .blank hblank (ih hrest)
  | token hblank hcomment hlexeme h ih => exact .token hblank hcomment hlexeme (ih hrest)

theorem eq_numberOverflow {fraction : List Char} (h : number whole fraction = .error error) : error = .numberOverflow := by
  rw [number] at h
  cases hvalue : (Decimal.ofDigits whole fraction).toBinary64? with
  | none =>
      rw [hvalue] at h
      cases h
      rfl
  | some value =>
      rw [hvalue] at h
      cases h

theorem isDigit_head?_dropWhile {d : Char} (h : (line.dropWhile Char.isDigit).head? = some d) : d.isDigit = false := by
  have hdropped := List.head?_dropWhile_not Char.isDigit line
  rwa [h] at hdropped

/-- A number that is not completed offends at the character that would have to go on with it. -/
theorem offends_of_literal (hne : whole ≠ []) (hwhole : ∀ d ∈ whole, d.isDigit = true)
    (hline : ∀ d, line.head? = some d → d.isDigit = false) (h : literal whole line = (.error error, rest)) :
    ∃ places, line = places ++ rest ∧ Offends error (whole ++ places) rest := by
  unfold literal at h
  split at h
  · rename_i places
    obtain ⟨hvalue, rfl⟩ := Prod.mk.inj h
    have hdigits : ∀ d ∈ places.takeWhile Char.isDigit, d.isDigit = true := fun d hmem => List.mem_takeWhile_imp hmem
    have hsplit : places.takeWhile Char.isDigit ++ places.dropWhile Char.isDigit = places := List.takeWhile_append_dropWhile
    refine ⟨'.' :: places.takeWhile Char.isDigit, congrArg ('.' :: ·) hsplit.symm, ?_⟩
    have hrest : ∀ d, (places.dropWhile Char.isDigit).head? = some d → d.isDigit = false :=
      fun d => isDigit_head?_dropWhile
    by_cases hfraction : places.takeWhile Char.isDigit = []
    · rw [if_pos hfraction] at hvalue
      cases hvalue
      rw [hfraction]
      exact .missingFraction hne hwhole hrest
    · rw [if_neg hfraction] at hvalue
      obtain rfl := eq_numberOverflow hvalue
      exact .overflow hne hwhole hfraction hdigits hvalue hrest
  · rename_i hpoint
    obtain ⟨hvalue, rfl⟩ := Prod.mk.inj h
    obtain rfl := eq_numberOverflow hvalue
    refine ⟨[], rfl, ?_⟩
    rw [List.append_nil]
    refine .wholeOverflow hne hwhole hvalue fun d hd => ⟨hline d hd, ?_⟩
    rintro rfl
    obtain ⟨places, rfl⟩ := List.head?_eq_some_iff.1 hd
    exact hpoint places rfl

/-- A lexeme that is not completed offends at what is left of the line. -/
theorem offends_of_lexeme (hblank : c ∉ blanks) (h : lexeme c line = (.error error, rest))
    (htaken : c :: line = taken ++ rest) : Offends error taken rest := by
  have hoffends : ∃ taken', c :: line = taken' ++ rest ∧ Offends error taken' rest := by
    unfold lexeme at h
    split at h
    · cases h
    · rename_i halpha
      split at h
      · rename_i hdigit
        have hwhole : ∀ d ∈ c :: line.takeWhile Char.isDigit, d.isDigit = true := by
          rw [List.forall_mem_cons]
          exact ⟨hdigit, fun d hmem => List.mem_takeWhile_imp hmem⟩
        obtain ⟨places, hplaces, hoffends⟩ :=
          offends_of_literal (List.cons_ne_nil _ _) hwhole (fun d => isDigit_head?_dropWhile) h
        refine ⟨_, ?_, hoffends⟩
        rw [List.append_assoc, ← hplaces, List.cons_append, List.takeWhile_append_dropWhile]
      · rename_i hdigit
        unfold symbol at h
        split at h
        · cases h
        · rename_i hpaired
          split at h
          · cases h
          · rename_i hplain
            split at h
            · rename_i hbang
              cases h
              subst hbang
              refine ⟨['!'], rfl, .expected fun hhead => ?_⟩
              exact hpaired _ hhead rfl
            · rename_i hbang
              cases h
              exact ⟨[], rfl, .badChar hblank (Bool.eq_false_iff.2 halpha) (Bool.eq_false_iff.2 hdigit) hplain hbang line⟩
  obtain ⟨taken', htaken', hoffends⟩ := hoffends
  obtain rfl : taken = taken' := List.append_cancel_right (htaken.symm.trans htaken')
  exact hoffends

end FormulaCompiler.MaximalMunch
