import FormulaCompiler.Lexer
import FormulaCompiler.Proofs.Binary64.Nearest
import FormulaCompiler.Proofs.Lexer.MaximalMunch
import FormulaCompiler.Proofs.Position
import FormulaCompiler.Proofs.Source

/-!
# The lexer scans line by line

The modes of the lexer come to what maximal munch says of each line on its own: for every readable source,
the answers of the lexer without their places are those of its lines, one line after the other
(`answers_eq_scanLines`). A lexer is known here by the characters left and by whether it skips them; where it
stands and where a token began make no difference to what it answers.
-/

namespace FormulaCompiler.Lexer

/-- An answer without its place. -/
def unplaced : Lexed → Except LexError Token
  | .ok token => .ok token.value
  | .error error => .error error.value

/-- Whether the rest of a line is skipped after a result. -/
def skipsAfter : Except LexError Token → Bool
  | .ok _ => false
  | .error _ => true

/-- A lexer in front of the characters left of a readable source. -/
def inFrontOf (source : String) (rest : List Char) (here : Position) (skipping : Bool) : Lexer :=
  ⟨⟨source, rest, none, here⟩, skipping⟩

/-- All answers of a lexer, without their places. -/
def results (l : Lexer) : List (Except LexError Token) := l.answers.map fun answer => unplaced answer.1

/-- The lexer answers `result` and is then in front of `rest`. -/
def Gives (source : String) (outcome : Option Lexed × Lexer) (result : Except LexError Token)
    (rest : List Char) : Prop :=
  ∃ answer here, outcome = (some answer, inFrontOf source rest here (skipsAfter result)) ∧
    unplaced answer = result

variable {source : String} {mode : Mode} {start last here : Position} {c : Char} {rest more : List Char}

theorem answers_congr {l l' : Lexer} (h : l.next? = l'.next?) : l.answers = l'.answers := by
  cases hnext : l.next? with
  | mk answer after =>
      cases answer with
      | none => rw [answers_of_none hnext, answers_of_none (h.symm.trans hnext)]
      | some answer => rw [answers_of_some hnext, answers_of_some (h.symm.trans hnext)]

theorem results_congr {l l' : Lexer} (h : l.next? = l'.next?) : results l = results l' :=
  congrArg (List.map _) (answers_congr h)

theorem results_of_gives {l : Lexer} {result : Except LexError Token} (h : Gives source l.next? result rest) :
    ∃ here, results l = result :: results (inFrontOf source rest here (skipsAfter result)) := by
  obtain ⟨answer, here, h, rfl⟩ := h
  refine ⟨here, ?_⟩
  rw [results, answers_of_some h]
  rfl

/-! ### One character -/

theorem run_shift (next : Mode) (h : mode.react (some c) = .shift next) :
    run source none mode start last (c :: rest) here =
      run source none next (if mode = .between then here else start) here rest (here.after c) := by
  rw [run, h]

theorem gives_accept {token : Token} (h : mode.react (some c) = .accept token) :
    Gives source (run source none mode start last (c :: rest) here) (.ok token) (c :: rest) := by
  rw [run, h]
  exact ⟨_, _, rfl, rfl⟩

theorem gives_reject {error : LexError} (h : mode.react (some c) = .reject error) :
    Gives source (run source none mode start last (c :: rest) here) (.error error) (c :: rest) := by
  rw [run, h]
  exact ⟨_, _, rfl, rfl⟩

/-! ### Lexemes -/

theorem ofList_push (chars : List Char) (c : Char) :
    (String.ofList chars).push c = String.ofList (chars ++ [c]) := by
  ext1
  simp

theorem wordToken_ofList (letters : List Char) :
    wordToken (String.ofList letters) = MaximalMunch.word letters := by
  have hmatch (keyword : Keyword) : (keyword.text == (String.ofList letters).map Char.toLower) =
      decide (letters.map Char.toLower = keyword.text.toList) := by
    rw [Bool.eq_iff_iff, beq_iff_eq, decide_eq_true_iff, ← String.toList_inj, String.toList_map,
      String.toList_ofList, eq_comm]
  have hconst : Keyword.constDecl.text.toList = ['c', 'o', 'n', 's', 't'] := rfl
  have hlet : Keyword.letDecl.text.toList = ['l', 'e', 't'] := rfl
  have hfn : Keyword.fnDecl.text.toList = ['f', 'n'] := rfl
  rw [wordToken, Keyword.ofWord?, MaximalMunch.word]
  simp only [List.find?_cons, List.find?_nil, hmatch, hconst, hlet, hfn]
  generalize letters.map Char.toLower = lower
  by_cases h₁ : lower = ['c', 'o', 'n', 's', 't']
  · rw [decide_eq_true h₁, if_pos h₁]
  rw [decide_eq_false h₁, if_neg h₁]
  by_cases h₂ : lower = ['l', 'e', 't']
  · rw [decide_eq_true h₂, if_pos h₂]
  rw [decide_eq_false h₂, if_neg h₂]
  by_cases h₃ : lower = ['f', 'n']
  · rw [decide_eq_true h₃, if_pos h₃]
  · rw [decide_eq_false h₃, if_neg h₃]

theorem numberToken_ofList (whole fraction : List Char) :
    numberToken (String.ofList whole) (String.ofList fraction) =
      match MaximalMunch.number whole fraction with
      | .ok token => .accept token
      | .error error => .reject error := by
  rw [numberToken, MaximalMunch.number, String.toList_ofList, String.toList_ofList]
  generalize (Decimal.ofDigits whole fraction).toBinary64? = value
  cases value with
  | some value => rfl
  | none => rfl

theorem gives_number {whole fraction : List Char}
    (h : mode.react (some c) = numberToken (String.ofList whole) (String.ofList fraction)) :
    Gives source (run source none mode start last (c :: rest) here) (MaximalMunch.number whole fraction)
      (c :: rest) := by
  rw [numberToken_ofList] at h
  cases hnumber : MaximalMunch.number whole fraction with
  | ok token =>
      rw [hnumber] at h
      exact gives_accept h
  | error error =>
      rw [hnumber] at h
      exact gives_reject h

/-- A word goes on as long as it can. -/
theorem gives_word (letters : List Char) :
    Gives source (run source none (.word (String.ofList letters)) start last (rest ++ '\n' :: more) here)
      (.ok (MaximalMunch.word (letters ++ rest.takeWhile isWordChar)))
      (rest.dropWhile isWordChar ++ '\n' :: more) := by
  induction rest generalizing letters start last here with
  | nil =>
      rw [List.takeWhile_nil, List.append_nil, ← wordToken_ofList]
      exact gives_accept rfl
  | cons c rest ih =>
      rw [List.takeWhile_cons, List.dropWhile_cons, List.cons_append]
      by_cases hc : isWordChar c = true
      · rw [if_pos hc, if_pos hc, run_shift (.word (String.ofList (letters ++ [c])))]
        · simpa using ih (letters ++ [c])
        · rw [Mode.react, if_pos hc, ofList_push]
      · rw [if_neg hc, if_neg hc, List.append_nil, ← wordToken_ofList]
        apply gives_accept
        rw [Mode.react, if_neg hc]

/-- A character that is no digit ends a number behind its point, or is missed as the first digit there. -/
theorem gives_fraction_end (whole places : List Char) (hc : ¬ c.isDigit = true) :
    Gives source
      (run source none (.fraction (String.ofList whole) (String.ofList places)) start last (c :: rest) here)
      (if places = [] then .error .missingFraction else MaximalMunch.number whole places) (c :: rest) := by
  by_cases hplaces : places = []
  · rw [if_pos hplaces]
    apply gives_reject
    rw [Mode.react, if_neg hc, if_pos (String.ofList_eq_empty_iff.2 hplaces)]
  · rw [if_neg hplaces]
    apply gives_number
    rw [Mode.react, if_neg hc, if_neg (mt String.ofList_eq_empty_iff.1 hplaces)]

/-- The digits behind a point go on as long as they can. -/
theorem gives_fraction (whole places : List Char) :
    Gives source (run source none (.fraction (String.ofList whole) (String.ofList places)) start last
        (rest ++ '\n' :: more) here)
      (if places ++ rest.takeWhile Char.isDigit = [] then .error .missingFraction
        else MaximalMunch.number whole (places ++ rest.takeWhile Char.isDigit))
      (rest.dropWhile Char.isDigit ++ '\n' :: more) := by
  induction rest generalizing places start last here with
  | nil =>
      rw [List.takeWhile_nil, List.append_nil]
      exact gives_fraction_end whole places (by decide)
  | cons c rest ih =>
      rw [List.takeWhile_cons, List.dropWhile_cons, List.cons_append]
      by_cases hc : c.isDigit = true
      · rw [if_pos hc, if_pos hc, List.append_cons places,
          run_shift (.fraction (String.ofList whole) (String.ofList (places ++ [c])))]
        · exact ih (places ++ [c])
        · rw [Mode.react, if_pos hc, ofList_push]
      · rw [if_neg hc, if_neg hc, List.append_nil]
        exact gives_fraction_end whole places hc

/-- The digits of a number go on as long as they can, and behind a point once more. -/
theorem gives_literal (digits : List Char) :
    Gives source (run source none (.whole (String.ofList digits)) start last (rest ++ '\n' :: more) here)
      (MaximalMunch.literal (digits ++ rest.takeWhile Char.isDigit) (rest.dropWhile Char.isDigit)).1
      ((MaximalMunch.literal (digits ++ rest.takeWhile Char.isDigit) (rest.dropWhile Char.isDigit)).2 ++
        '\n' :: more) := by
  have hnone : "" = String.ofList [] := rfl
  induction rest generalizing digits start last here with
  | nil =>
      rw [List.takeWhile_nil, List.append_nil, List.dropWhile_nil, MaximalMunch.literal_nil]
      dsimp only
      apply gives_number
      rw [Mode.react, if_neg (by decide), if_neg (by decide), hnone]
  | cons c rest ih =>
      rw [List.takeWhile_cons, List.dropWhile_cons, List.cons_append]
      by_cases hc : c.isDigit = true
      · rw [if_pos hc, if_pos hc, List.append_cons digits, run_shift (.whole (String.ofList (digits ++ [c])))]
        · exact ih (digits ++ [c])
        · rw [Mode.react, if_pos hc, ofList_push]
      · rw [if_neg hc, if_neg hc, List.append_nil]
        by_cases hpoint : c = '.'
        · subst hpoint
          rw [run_shift (.fraction (String.ofList digits) (String.ofList []))]
          · rw [MaximalMunch.literal_point]
            exact gives_fraction digits []
          · rw [Mode.react, if_neg hc, if_pos rfl, hnone]
        · rw [MaximalMunch.literal_of_ne_point hpoint]
          dsimp only
          apply gives_number
          rw [Mode.react, if_neg hc, if_neg hpoint, hnone]

theorem gives_complete (symbol : Symbol) :
    Gives source (run source none (.complete symbol) start last (rest ++ '\n' :: more) here)
      (.ok (.symbol symbol)) (rest ++ '\n' :: more) := by
  cases rest with
  | nil => exact gives_accept rfl
  | cons c rest => exact gives_accept rfl

/-- What may begin a symbol of two characters takes an equals sign if there is one. -/
theorem gives_comparison {alone paired : Symbol} (halone : MaximalMunch.plainSymbol? c = some alone)
    (hpaired : MaximalMunch.pairedSymbol? c = some paired) :
    Gives source (run source none (.comparison alone paired) start last (rest ++ '\n' :: more) here)
      (MaximalMunch.symbol c rest).1 ((MaximalMunch.symbol c rest).2 ++ '\n' :: more) := by
  cases rest with
  | nil =>
      rw [MaximalMunch.symbol_of_plain (by simp) halone]
      apply gives_accept
      rw [Mode.react, if_neg (by decide)]
  | cons d rest =>
      by_cases hd : d = '='
      · subst hd
        rw [MaximalMunch.symbol_of_paired hpaired, List.cons_append, run_shift (.complete paired)]
        · exact gives_complete paired
        · rw [Mode.react, if_pos rfl]
      · rw [MaximalMunch.symbol_of_plain (by simp [hd]) halone]
        apply gives_accept
        rw [Mode.react, if_neg (by simpa using hd)]

theorem gives_bang :
    Gives source (run source none .bang start last (rest ++ '\n' :: more) here)
      (MaximalMunch.symbol '!' rest).1 ((MaximalMunch.symbol '!' rest).2 ++ '\n' :: more) := by
  cases rest with
  | nil => exact gives_reject rfl
  | cons d rest =>
      by_cases hd : d = '='
      · subst hd
        rw [List.cons_append, run_shift (.complete .notEqual) rfl]
        exact gives_complete .notEqual
      · rw [MaximalMunch.symbol_of_none (by simp [hd]) rfl]
        apply gives_reject
        rw [Mode.react, if_neg (by simpa using hd)]

theorem gives_slash (h : rest.head? ≠ some '/') :
    Gives source (run source none .slash start last (rest ++ '\n' :: more) here)
      (.ok (.symbol .slash)) (rest ++ '\n' :: more) := by
  cases rest with
  | nil => exact gives_accept rfl
  | cons d rest =>
      apply gives_accept
      rw [Mode.react, if_neg (show some d ≠ some '/' from h)]

/-! ### The first character -/

theorem lexeme_of_singleSymbol? {symbol : Symbol} (h : singleSymbol? c = some symbol) :
    MaximalMunch.lexeme c rest = (.ok (.symbol symbol), rest) := by
  unfold singleSymbol? at h
  split at h
  all_goals
    simp only [Option.some.injEq, reduceCtorEq] at h
  all_goals
    subst h
    rw [MaximalMunch.lexeme_of_symbol (by decide) (by decide)]
    exact MaximalMunch.symbol_of_plain (fun _ => rfl) rfl

theorem isBlank_iff : isBlank c = true ↔ c ∈ MaximalMunch.blanks := by
  simp [isBlank, MaximalMunch.blanks, or_assoc]

theorem pairedSymbol?_eq_none (hbang : c ≠ '!') (hassign : c ≠ '=') (hless : c ≠ '<') (hgreater : c ≠ '>') :
    MaximalMunch.pairedSymbol? c = none := by
  unfold MaximalMunch.pairedSymbol?
  split <;> first | contradiction | rfl

theorem plainSymbol?_eq_none (hsingle : singleSymbol? c = none) (hslash : c ≠ '/') (hassign : c ≠ '=')
    (hless : c ≠ '<') (hgreater : c ≠ '>') : MaximalMunch.plainSymbol? c = none := by
  unfold MaximalMunch.plainSymbol?
  split <;> first | contradiction | rfl

/-- A lexer between two tokens takes the longest lexeme. -/
theorem gives_lexeme (hblank : c ∉ MaximalMunch.blanks) (hcomment : ¬ (c = '/' ∧ rest.head? = some '/')) :
    Gives source (run source none .between start last (c :: (rest ++ '\n' :: more)) here)
      (MaximalMunch.lexeme c rest).1 ((MaximalMunch.lexeme c rest).2 ++ '\n' :: more) := by
  have hshift {mode : Mode} (h : Mode.first? c = some mode) : Mode.react .between (some c) = .shift mode := by
    rw [Mode.react, h]
  cases hsingle : singleSymbol? c with
  | some symbol =>
      rw [run_shift (.complete symbol) (hshift (by rw [Mode.first?, hsingle])), lexeme_of_singleSymbol? hsingle]
      exact gives_complete symbol
  | none =>
      by_cases hslash : c = '/'
      · subst hslash
        rw [run_shift .slash rfl, MaximalMunch.lexeme_of_symbol rfl rfl,
          MaximalMunch.symbol_of_plain (fun _ => rfl) rfl]
        apply gives_slash
        intro hhead
        exact hcomment ⟨rfl, hhead⟩
      by_cases hbang : c = '!'
      · subst hbang
        rw [run_shift .bang rfl, MaximalMunch.lexeme_of_symbol rfl rfl]
        exact gives_bang
      by_cases hassign : c = '='
      · subst hassign
        rw [run_shift (.comparison .assign .equal) rfl, MaximalMunch.lexeme_of_symbol rfl rfl]
        exact gives_comparison rfl rfl
      by_cases hless : c = '<'
      · subst hless
        rw [run_shift (.comparison .less .lessOrEqual) rfl, MaximalMunch.lexeme_of_symbol rfl rfl]
        exact gives_comparison rfl rfl
      by_cases hgreater : c = '>'
      · subst hgreater
        rw [run_shift (.comparison .greater .greaterOrEqual) rfl, MaximalMunch.lexeme_of_symbol rfl rfl]
        exact gives_comparison rfl rfl
      have hfirst : Mode.first? c = if c.isAlpha then some (.word (String.singleton c))
          else if c.isDigit then some (.whole (String.singleton c))
          else if isBlank c then some .between else none := by
        rw [Mode.first?, hsingle]
        simp only [hslash, hbang, hassign, hless, hgreater, if_false]
      rw [MaximalMunch.lexeme]
      by_cases halpha : c.isAlpha = true
      · rw [if_pos halpha] at hfirst ⊢
        rw [run_shift _ (hshift hfirst)]
        exact gives_word [c]
      rw [if_neg halpha] at hfirst ⊢
      by_cases hdigit : c.isDigit = true
      · rw [if_pos hdigit] at hfirst ⊢
        rw [run_shift _ (hshift hfirst)]
        exact gives_literal [c]
      rw [if_neg hdigit, if_neg (mt isBlank_iff.1 hblank)] at hfirst
      rw [if_neg hdigit, MaximalMunch.symbol_of_none (fun _ => pairedSymbol?_eq_none hbang hassign hless hgreater)
        (plainSymbol?_eq_none hsingle hslash hassign hless hgreater), if_neg hbang]
      apply gives_reject
      rw [Mode.react, hfirst]

/-! ### Lines -/

theorem next?_inFrontOf (skipping : Bool) : (inFrontOf source rest here skipping).next? =
    run source none (if skipping then .skipping else .between) here here rest here := rfl

/-- Where no token has begun, it makes no difference where one would have. -/
theorem run_between : run source none .between start last rest here = (inFrontOf source rest here false).next? := by
  cases rest with
  | nil => rfl
  | cons c rest =>
      rw [next?_inFrontOf, if_neg (by decide), run, run, Mode.react]
      cases Mode.first? c with
      | none => rfl
      | some mode => rfl

theorem next?_blank (h : c ∈ MaximalMunch.blanks) :
    (inFrontOf source (c :: rest) here false).next? = (inFrontOf source rest (here.after c) false).next? := by
  have hreact : Mode.react .between (some c) = .shift .between := by
    simp only [MaximalMunch.blanks, List.mem_cons, List.not_mem_nil, or_false] at h
    obtain rfl | rfl | rfl | rfl | rfl := h <;> rfl
  rw [next?_inFrontOf, if_neg (by decide), run_shift _ hreact]
  exact run_between

/-- What drops the characters of a line ends with it. -/
theorem run_dropping (hmode : ∀ c, mode.react (some c) = .shift (if c = '\n' then .between else mode))
    (hline : '\n' ∉ rest) :
    run source none mode start last (rest ++ '\n' :: more) here = (inFrontOf source more here.newline false).next? := by
  induction rest generalizing start last here with
  | nil =>
      rw [List.nil_append, run_shift _ (hmode _), if_pos rfl, run_between]
      rfl
  | cons c rest ih =>
      rw [List.mem_cons, not_or] at hline
      rw [List.cons_append, run_shift _ (hmode _), if_neg (Ne.symm hline.1), ih hline.2,
        Position.newline_after (Ne.symm hline.1)]

/-- A comment drops the rest of its line. -/
theorem next?_comment (hline : '\n' ∉ rest) :
    (inFrontOf source ('/' :: '/' :: (rest ++ '\n' :: more)) here false).next? =
      (inFrontOf source more here.newline false).next? := by
  have hslashes : ((here.after '/').after '/').newline = here.newline := rfl
  rw [← hslashes]
  exact run_dropping (fun _ => rfl) hline

/-- What is left of a line after an error is dropped. -/
theorem next?_skipping (hline : '\n' ∉ rest) :
    (inFrontOf source (rest ++ '\n' :: more) here true).next? = (inFrontOf source more here.newline false).next? :=
  run_dropping (fun _ => rfl) hline

/-- A line is scanned on its own, and leaves the lexer in front of the next one. -/
theorem results_line (line : List Char) (here : Position) (hline : '\n' ∉ line) :
    ∃ there, results (inFrontOf source (line ++ '\n' :: more) here false) =
      MaximalMunch.scanLine line ++ results (inFrontOf source more there false) := by
  induction line using MaximalMunch.scanLine.induct generalizing here with
  | case1 =>
      rw [MaximalMunch.scanLine]
      exact ⟨_, results_congr (next?_blank (by decide))⟩
  | case2 c rest hblank ih =>
      rw [MaximalMunch.scanLine, if_pos hblank, List.cons_append, results_congr (next?_blank hblank)]
      exact ih _ (List.not_mem_of_not_mem_cons hline)
  | case3 c rest hblank hcomment =>
      rw [MaximalMunch.scanLine, if_neg hblank, if_pos hcomment]
      obtain ⟨rfl, hhead⟩ := hcomment
      obtain ⟨dropped, rfl⟩ := List.head?_eq_some_iff.1 hhead
      have hdropped : '\n' ∉ dropped := List.not_mem_of_not_mem_cons (List.not_mem_of_not_mem_cons hline)
      exact ⟨_, results_congr (next?_comment hdropped)⟩
  | case4 c rest hblank hcomment token left hlexeme ih =>
      have hgives : Gives source (inFrontOf source (c :: rest ++ '\n' :: more) here false).next? _ _ :=
        gives_lexeme hblank hcomment
      rw [hlexeme] at hgives
      obtain ⟨there, hresults⟩ := results_of_gives hgives
      have hleft : '\n' ∉ left := fun hmem => hline (MaximalMunch.lexeme_subset c rest (by rwa [hlexeme]))
      obtain ⟨next, hrest⟩ := ih there hleft
      refine ⟨next, ?_⟩
      rw [MaximalMunch.scanLine_of_token hblank hcomment hlexeme, List.cons_append, List.cons_append, ← hrest]
      exact hresults
  | case5 c rest hblank hcomment error left hlexeme =>
      have hgives : Gives source (inFrontOf source (c :: rest ++ '\n' :: more) here false).next? _ _ :=
        gives_lexeme hblank hcomment
      rw [hlexeme] at hgives
      obtain ⟨there, hresults⟩ := results_of_gives hgives
      have hleft : '\n' ∉ left := fun hmem => hline (MaximalMunch.lexeme_subset c rest (by rwa [hlexeme]))
      -- The error may stand anywhere in the line: what is left of it is dropped character by character.
      refine ⟨there.newline, ?_⟩
      rw [MaximalMunch.scanLine_of_error hblank hcomment hlexeme, hresults]
      exact congrArg _ (results_congr (next?_skipping hleft))

/-- The lines of a source are scanned one after the other. -/
theorem results_lines (lines : List String) (here : Position) (hlines : ∀ line ∈ lines, '\n' ∉ line.toList) :
    results (inFrontOf source (lines.flatMap fun line => line.toList ++ ['\n']) here false) =
      lines.flatMap fun line => MaximalMunch.scanLine line.toList := by
  induction lines generalizing here with
  | nil => rw [results, List.flatMap_nil, List.flatMap_nil, answers_of_none rfl, List.map_nil]
  | cons line lines ih =>
      rw [List.forall_mem_cons] at hlines
      rw [List.flatMap_cons, List.flatMap_cons, List.append_assoc, List.singleton_append]
      obtain ⟨there, hline⟩ := results_line line.toList here hlines.1
      rw [hline, ih there hlines.2]

theorem ofSource_eq_inFrontOf {s : Source} (hreadable : s.reading.failure = none) :
    ofSource s = inFrontOf s.name s.reading.chars {} false := by
  rw [ofSource, CharStream.ofSource, hreadable]
  rfl

theorem results_of_readable {s : Source} (hreadable : s.reading.failure = none) :
    results (ofSource s) = s.reading.lines.flatMap fun line => MaximalMunch.scanLine line.toList := by
  rw [ofSource_eq_inFrontOf hreadable]
  exact results_lines s.reading.lines {} s.newline_notMem_lines

/-- A text of one line is scanned as that line. -/
theorem results_ofText (name : String) {text : String} (hne : text.toList ≠ [])
    (hbreaks : ∀ c ∈ text.toList, c ≠ '\r' ∧ c ≠ '\n') :
    results (ofSource (Source.ofText name text)) = MaximalMunch.scanLine text.toList := by
  have hreading := Source.reading_ofText_line name hne hbreaks
  rw [results_of_readable (by rw [hreading]), hreading]
  exact List.append_nil _

/-- **The lexer scans each line by maximal munch**, and what it makes of the digits of a number is the double
that they denote. -/
theorem answers_eq_scanLines (s : Source) (hreadable : s.reading.failure = none) :
    (ofSource s).answers.map (fun answer => unplaced answer.1) =
      (s.reading.lines.flatMap fun line => MaximalMunch.scanLine line.toList) ∧
    ∀ whole fraction, ∃ value, (Decimal.ofDigits whole fraction).Denotes value ∧
      MaximalMunch.number whole fraction = MaximalMunch.ofDouble value := by
  refine ⟨?_, fun whole fraction => ⟨_, Decimal.denotes_toBinary64? _, rfl⟩⟩
  rw [ofSource_eq_inFrontOf hreadable]
  exact results_lines s.reading.lines {} s.newline_notMem_lines

/-- A text with a number that lacks its fraction, a character that begins no token, and a comment. -/
def recovering : Source := Source.ofText "recovering" "x<=1. y\n$ z\nLet // a"

/-- An error drops the rest of its line and nothing of the next one. -/
theorem answers_eq_scanLines_recovering :
    recovering.reading.failure = none ∧
    (ofSource recovering).answers.map (fun answer => unplaced answer.1) =
      [.ok (.identifier ⟨"x"⟩), .ok (.symbol .lessOrEqual), .error .missingFraction, .error (.badChar '$'),
        .ok (.keyword .letDecl)] := by
  have hreading : recovering.reading = ⟨["x<=1. y", "$ z", "Let // a"], none⟩ := by
    rw [recovering, Source.reading_ofText]
    rfl
  have hreadable : recovering.reading.failure = none := by rw [hreading]
  have hfirst : MaximalMunch.scanLine ['x', '<', '=', '1', '.', ' ', 'y'] =
      [.ok (.identifier ⟨"x"⟩), .ok (.symbol .lessOrEqual), .error .missingFraction] :=
    calc MaximalMunch.scanLine ['x', '<', '=', '1', '.', ' ', 'y']
        = .ok (.identifier ⟨"x"⟩) :: MaximalMunch.scanLine ['<', '=', '1', '.', ' ', 'y'] :=
          MaximalMunch.scanLine_of_token (by decide) (by decide) rfl
      _ = .ok (.identifier ⟨"x"⟩) :: .ok (.symbol .lessOrEqual) :: MaximalMunch.scanLine ['1', '.', ' ', 'y'] :=
          congrArg _ (MaximalMunch.scanLine_of_token (by decide) (by decide) rfl)
      _ = [.ok (.identifier ⟨"x"⟩), .ok (.symbol .lessOrEqual), .error .missingFraction] :=
          congrArg (_ :: _ :: ·) (MaximalMunch.scanLine_of_error (by decide) (by decide) rfl)
  have hsecond : MaximalMunch.scanLine ['$', ' ', 'z'] = [.error (.badChar '$')] :=
    MaximalMunch.scanLine_of_error (by decide) (by decide) rfl
  have hthird : MaximalMunch.scanLine ['L', 'e', 't', ' ', '/', '/', ' ', 'a'] = [.ok (.keyword .letDecl)] :=
    calc MaximalMunch.scanLine ['L', 'e', 't', ' ', '/', '/', ' ', 'a']
        = .ok (.keyword .letDecl) :: MaximalMunch.scanLine [' ', '/', '/', ' ', 'a'] :=
          MaximalMunch.scanLine_of_token (by decide) (by decide) rfl
      _ = [.ok (.keyword .letDecl)] := by
          rw [MaximalMunch.scanLine, if_pos (by decide), MaximalMunch.scanLine, if_neg (by decide),
            if_pos (by decide)]
  refine ⟨hreadable, ?_⟩
  rw [(answers_eq_scanLines recovering hreadable).1, hreading]
  show MaximalMunch.scanLine ['x', '<', '=', '1', '.', ' ', 'y'] ++ (MaximalMunch.scanLine ['$', ' ', 'z'] ++
    (MaximalMunch.scanLine ['L', 'e', 't', ' ', '/', '/', ' ', 'a'] ++ [])) = _
  rw [hfirst, hsecond, hthird]
  rfl

end FormulaCompiler.Lexer
