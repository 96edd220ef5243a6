import FormulaCompiler.Proofs.Blame
import FormulaCompiler.Proofs.Lexer.Failure
import FormulaCompiler.Proofs.RoundTrip
import FormulaCompiler.Proofs.Scan

/-!
# The outcome for a source

Whatever is wrong with a source, an unreadable line counts first, then all errors of the lexer together, and
only then a single error of the parser (`engine_outcome`). That the parser has no defect of its own to report is
a part of this.
-/

namespace FormulaCompiler

/-! ### Errors of the lexer -/

namespace MaximalMunch

variable (access : AccessError)

theorem number_ne_input (whole fraction : List Char) : number whole fraction ≠ .error (.input access) := by
  rw [number]
  generalize (Decimal.ofDigits whole fraction).toBinary64? = value
  cases value <;> simp [ofDouble]

/-- No error of a line is about reading it. -/
theorem lexeme_ne_input (c : Char) (rest : List Char) : (lexeme c rest).1 ≠ .error (.input access) := by
  unfold lexeme
  split
  · simp
  · split
    · unfold literal
      split
      · dsimp only
        split
        · simp
        · exact number_ne_input access _ _
      · exact number_ne_input access _ _
    · unfold symbol
      repeat' split
      all_goals simp

theorem input_notMem_scanLine (line : List Char) : .error (.input access) ∉ scanLine line := by
  induction line using scanLine.induct with
  | case1 =>
      rw [scanLine]
      exact List.not_mem_nil
  | case2 c rest hblank ih =>
      rw [scanLine, if_pos hblank]
      exact ih
  | case3 c rest hblank hcomment =>
      rw [scanLine, if_neg hblank, if_pos hcomment]
      exact List.not_mem_nil
  | case4 c rest hblank hcomment token more hlexeme ih =>
      rw [scanLine_of_token hblank hcomment hlexeme, List.mem_cons, not_or]
      exact ⟨by simp, ih⟩
  | case5 c rest hblank hcomment error more hlexeme =>
      have hne := lexeme_ne_input access c rest
      rw [scanLine_of_error hblank hcomment hlexeme, List.mem_singleton]
      rw [hlexeme] at hne
      exact hne.symm

end MaximalMunch

open Lexer (tokensOf errorsOf)

/-- No error of a source that can be read is about reading it. -/
theorem Lexer.findSome?_access?_errorsOf {s : Source} (hreadable : s.reading.failure = none) :
    (errorsOf (ofSource s).items).findSome? LexError.access? = none := by
  rw [List.findSome?_eq_none_iff]
  intro error hmem
  obtain ⟨line, -, hline⟩ := exists_line_of_mem hreadable (mem_errorsOf.1 hmem)
  rw [LexError.access?]
  split
  · rename_i access hvalue
    rw [unplaced, hvalue] at hline
    exact absurd hline (MaximalMunch.input_notMem_scanLine access line.toList)
  · rfl

theorem Wanted.error_ne_tree (wanted : Wanted) (next : Option Token) (misuse : TreeMisuse) :
    wanted.error next ≠ .tree misuse := by
  cases wanted <;> cases next <;> exact SyntaxError.noConfusion

namespace Parser

variable {start : Span} {tokens : List (Spanned Token)} {traced : Bool} {log : Log} {error : Spanned SyntaxError}

/-- What the parser rejects exceeds a limit, or gets stuck on the first token behind the beginning of a sentence. -/
theorem error_of_parse (hnamed : ∀ token ∈ tokens, token.value.Named)
    (hparse : (parse start tokens traced log).1 = .error error) :
    (∃ limit, error.value = .nestingTooDeep limit) ∨
    ∃ wanted before after, tokens = before ++ after ∧ BeginsSentence (valuesOf before) ∧
      error = ⟨Wanted.error wanted (valuesOf after).head?, blamed ((before.getLast?.map (·.span)).getD start) after⟩ := by
  rcases splitsUnit (valuesOf tokens) with ⟨sentence, hsentence⟩ | ⟨wanted, read, rest, hvalues, hstuck⟩
  · obtain ⟨haccepts, hoverruns⟩ := parse_sentence start traced log hsentence.symm hnamed
    by_cases hlimits : sentence.nesting ≤ 128 ∧ sentence.tree.height ≤ 512
    · cases (haccepts hlimits).symm.trans hparse
    · obtain ⟨limit, span, htooDeep⟩ := hoverruns hlimits
      obtain rfl := Except.error.inj (htooDeep.symm.trans hparse)
      exact .inl ⟨limit, rfl⟩
  · obtain ⟨before, after, rfl, rfl, rfl⟩ := valuesOf_eq_append.1 hvalues
    obtain ⟨fits, hstops⟩ := parse_stuck hstuck
    obtain ⟨hfails, hoverruns⟩ := hstops start before after traced log rfl rfl
      fun token hmem => hnamed token (List.mem_append_left _ hmem)
    by_cases hfits : fits
    · obtain rfl := Except.error.inj ((hfails hfits).symm.trans hparse)
      exact .inr ⟨wanted, before, after, rfl, hstuck.completion, rfl⟩
    · obtain ⟨limit, span, htooDeep⟩ := hoverruns hfits
      obtain rfl := Except.error.inj (htooDeep.symm.trans hparse)
      exact .inl ⟨limit, rfl⟩

/-- The parser never misuses a tree. -/
theorem ne_tree_of_parse (hnamed : ∀ token ∈ tokens, token.value.Named)
    (hparse : (parse start tokens traced log).1 = .error error) (misuse : TreeMisuse) : error.value ≠ .tree misuse := by
  rcases error_of_parse hnamed hparse with ⟨limit, hlimit⟩ | ⟨wanted, before, after, -, -, rfl⟩
  · rw [hlimit]
    exact SyntaxError.noConfusion
  · exact wanted.error_ne_tree _ misuse

/-! ### Outcomes -/

variable (s : Source) (start : Span) (scanning parsing : Bool)

/-- Errors of the lexer keep the parser from reading any token. -/
theorem engine_of_errors (h : errorsOf (Lexer.ofSource s).items ≠ []) :
    (engine parsing start (Lexer.scan scanning s)).1 = .error (.ofLexErrors (errorsOf (Lexer.ofSource s).items)) := by
  have hexhaust := Lexer.exhaust_scan scanning s
  rw [if_neg h] at hexhaust
  rw [engine]
  split <;> rename_i hresult <;> rw [hresult] at hexhaust <;> cases hexhaust
  rfl

theorem engine_of_tokens (h : errorsOf (Lexer.ofSource s).items = []) :
    ∃ log, (engine parsing start (Lexer.scan scanning s)).1 =
      (parse start (tokensOf (Lexer.ofSource s).items) parsing log).1.mapError EngineError.ofSyntaxError := by
  have hexhaust := Lexer.exhaust_scan scanning s
  rw [if_pos h] at hexhaust
  rw [engine]
  split <;> rename_i hresult <;> rw [hresult] at hexhaust <;> cases hexhaust
  exact ⟨_, rfl⟩

/-- The parser answers once all lines of a source have been read. -/
theorem linesRead_engine (start : Span) (s : Source) (scanning parsing : Bool) :
    (engine parsing start (Lexer.scan scanning s)).2.linesRead = s.reading.lines.length := by
  have hexhaust := Scan.linesRead_exhaust (Lexer.scan scanning s)
  rw [engine]
  split <;> rename_i hresult <;> rw [hresult] at hexhaust <;> exact hexhaust

theorem wellFormed_of_mem_tokensOf {token : Spanned Token} (hmem : token ∈ tokensOf (Lexer.ofSource s).items) :
    token.value.WellFormed := by
  obtain ⟨⟨answer, after⟩, hanswer, hlexed⟩ := List.mem_map.1 (Lexer.mem_tokensOf.1 hmem)
  have hlexed : answer = .ok token := hlexed
  rw [hlexed] at hanswer
  exact Lexer.wellFormed_of_mem_answers _ hanswer

theorem named_of_mem_tokensOf {token : Spanned Token} (hmem : token ∈ tokensOf (Lexer.ofSource s).items) :
    token.value.Named := (wellFormed_of_mem_tokensOf s hmem).named

/-- The first unreadable line is all that is reported, whatever is wrong in front of it. -/
theorem engine_of_failsAfter {before : List (List UInt8)} {error : AccessError} (hfails : s.FailsAfter before error) :
    (engine parsing start (Lexer.scan scanning s)).1 =
      .error (.unreadable ⟨error, .single s.name ⟨before.length + 1, 1⟩⟩) := by
  obtain ⟨lines, -, -, hbeginning⟩ := hfails.exists_lines
  have hreadable : (s.beginning before).reading.failure = none := by rw [hbeginning]
  have herrors : errorsOf (Lexer.ofSource s).items = errorsOf (Lexer.ofSource (s.beginning before)).items ++
      [⟨.input error, .single s.name ⟨before.length + 1, 1⟩⟩] := by
    rw [Lexer.items_of_failsAfter hfails, errorsOf, List.filterMap_append]
    rfl
  rw [engine_of_errors s start scanning parsing (by simp [herrors]), herrors, EngineError.ofLexErrors,
    List.findSome?_append, Lexer.findSome?_access?_errorsOf hreadable]
  rfl

/-- Only what can be read is found invalid. -/
theorem readable_of_invalid {diagnostics : Diagnostics}
    (h : (engine parsing start (Lexer.scan scanning s)).1 = .error (.invalid diagnostics)) : s.reading.failure = none := by
  apply Source.readable_of_not_failsAfter
  intro before error hfails
  cases (engine_of_failsAfter s start scanning parsing hfails).symm.trans h

theorem engine_of_readable (hreadable : s.reading.failure = none) (herrors : errorsOf (Lexer.ofSource s).items ≠ []) :
    (engine parsing start (Lexer.scan scanning s)).1 =
      .error (.invalid (.ofLexErrors "Lexical error" (errorsOf (Lexer.ofSource s).items))) := by
  rw [engine_of_errors s start scanning parsing herrors, EngineError.ofLexErrors,
    Lexer.findSome?_access?_errorsOf hreadable]

/-- Tokens without an error among them are a tree, or rejected with one error of the parser. -/
theorem tree_or_error_of_tokens (herrors : errorsOf (Lexer.ofSource s).items = []) :
    (∃ node, (engine parsing start (Lexer.scan scanning s)).1 = .ok node) ∨
    ∃ log error, (parse start (tokensOf (Lexer.ofSource s).items) parsing log).1 = .error error ∧
      (engine parsing start (Lexer.scan scanning s)).1 = .error (.invalid (.ofSyntaxError "Syntax error" error)) := by
  obtain ⟨log, hengine⟩ := engine_of_tokens s start scanning parsing herrors
  cases hparse : (parse start (tokensOf (Lexer.ofSource s).items) parsing log).1 with
  | ok node =>
      rw [hparse] at hengine
      exact .inl ⟨node, hengine⟩
  | error error =>
      have hne := ne_tree_of_parse (fun token hmem => named_of_mem_tokensOf s hmem) hparse
      rw [hparse] at hengine
      refine .inr ⟨log, error, hparse, hengine.trans (congrArg Except.error ?_)⟩
      rw [EngineError.ofSyntaxError]
      split
      · rename_i misuse hvalue
        exact absurd hvalue (hne misuse)
      · rfl

theorem tree_or_problem_of_tokens (herrors : errorsOf (Lexer.ofSource s).items = []) :
    (∃ node, (engine parsing start (Lexer.scan scanning s)).1 = .ok node) ∨
    ∃ problem, (engine parsing start (Lexer.scan scanning s)).1 = .error (.invalid ⟨"Syntax error", [problem]⟩) := by
  rcases tree_or_error_of_tokens s start scanning parsing herrors with htree | ⟨log, error, -, hengine⟩
  · exact .inl htree
  · exact .inr ⟨_, hengine⟩

/-- A line with a character that begins no token, and one that is not UTF-8. -/
def spoiled : Source := ⟨"spoiled", ⟨#[0x24, 0x0a, 0xff, 0x0a, 0x31]⟩, none⟩

/-- A line with a character that begins no token, and a number behind it. -/
def unspoiled : Source := Source.ofText "unspoiled" "$ 1"

theorem errorsOf_negation : errorsOf (Lexer.ofSource Listing.negation).items = [] := by
  obtain ⟨left, hexhaust⟩ := Listing.exhaust_negation
  have hscan := Lexer.exhaust_scan false Listing.negation
  by_cases herrors : errorsOf (Lexer.ofSource Listing.negation).items = []
  · exact herrors
  · rw [hexhaust, if_neg herrors] at hscan
    cases hscan

end Parser

end FormulaCompiler
