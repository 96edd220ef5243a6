import FormulaCompiler.Proofs.Acceptance
import FormulaCompiler.Proofs.Grammar.Rename

/-!
# Which token an error names

Main statement: an error other than that of a limit names either the first token that cannot stand where it
does, so that what comes after it does not matter, or the end of tokens that only something more could
complete (`parse_blames`). The attempts of the parser that are undone never show: whatever token an
assignment or an argument list failed on, the error names the first one that no sentence has there.
-/

namespace FormulaCompiler

/-- Whether an error is about a token that has been read. -/
def SyntaxError.AtToken : SyntaxError → Prop
  | unexpectedToken _ _ => True
  | expectedIdentifier => True
  | expectedExpression => True
  | expectedSeparator => True
  | _ => False

/-- Whether an error is about a token that is not there. -/
def SyntaxError.AtEnd : SyntaxError → Prop
  | unexpectedEnd => True
  | missingToken _ => True
  | _ => False

theorem Wanted.error_atToken (wanted : Wanted) (token : Token) : (wanted.error (some token)).AtToken := by
  cases wanted <;> trivial

theorem Wanted.error_atEnd (wanted : Wanted) : (wanted.error none).AtEnd := by
  cases wanted <;> trivial

namespace Parser

/-- A sentence is rejected for its limits only. -/
private theorem ne_sentence {start : Span} {tokens : List (Spanned Token)} {traced : Bool} {log : Log}
    {error : Spanned SyntaxError} (hnamed : ∀ token ∈ tokens, token.value.Named)
    (herror : (parse start tokens traced log).1 = .error error)
    (hlimits : ∀ limit, error.value ≠ .nestingTooDeep limit) (sentence : Sentence) :
    sentence.tokens ≠ valuesOf tokens := by
  intro hsentence
  have hparse := parse_sentence start traced log hsentence hnamed
  by_cases hkept : sentence.nesting ≤ 128 ∧ sentence.tree.height ≤ 512
  · cases (hparse.1 hkept).symm.trans herror
  · obtain ⟨limit, span, htooDeep⟩ := hparse.2 hkept
    obtain rfl := Except.error.inj (htooDeep.symm.trans herror)
    exact hlimits limit rfl

/-- **An error names the first token that no sentence has where it stands, or the end.** -/
theorem parse_blames (start : Span) (tokens : List (Spanned Token)) (traced : Bool) (log : Log)
    (error : Spanned SyntaxError) (hnamed : ∀ token ∈ tokens, token.value.Named)
    (herror : (parse start tokens traced log).1 = .error error)
    (hlimits : ∀ limit, error.value ≠ .nestingTooDeep limit) :
    (error.value.AtToken ∧ ∃ before blamed after, tokens = before ++ blamed :: after ∧
      error.span = blamed.span ∧ BeginsSentence (valuesOf before) ∧
      ¬ BeginsSentence (valuesOf (before ++ [blamed])) ∧
      ∀ start' after' traced' log',
        (parse start' (before ++ blamed :: after') traced' log').1 = .error error) ∨
    (error.value.AtEnd ∧
      (∃ (sentence : Sentence) (more : List Token), more ≠ [] ∧ sentence.tokens = valuesOf tokens ++ more) ∧
      (¬ ∃ sentence : Sentence, sentence.tokens = valuesOf tokens) ∧
      error.span = (tokens.getLast?.map (·.span)).getD start) := by
  have hsentence := ne_sentence hnamed herror hlimits
  rcases splitsUnit (valuesOf tokens) with ⟨sentence, h⟩ | ⟨wanted, read, rest, hvalues, hstuck⟩
  · exact absurd h.symm (hsentence sentence)
  obtain ⟨before, after, rfl, rfl, rfl⟩ := valuesOf_eq_append.1 hvalues
  have hbefore : ∀ token ∈ before, token.value.Named :=
    fun token hmem => hnamed token (List.mem_append_left _ hmem)
  obtain ⟨fits, hparse⟩ := parse_stuck hstuck
  have hfits : fits := by
    refine Classical.byContradiction fun hfits => ?_
    obtain ⟨limit, span, htooDeep⟩ := (hparse start before after traced log rfl rfl hbefore).2 hfits
    obtain rfl := Except.error.inj (htooDeep.symm.trans herror)
    exact hlimits limit rfl
  have hfails := (hparse start before after traced log rfl rfl hbefore).1 hfits
  obtain rfl := Except.error.inj (hfails.symm.trans herror)
  cases after with
  | nil =>
      right
      refine ⟨wanted.error_atEnd, ?_, fun ⟨sentence, h⟩ => hsentence sentence h, by simp [blamed]⟩
      obtain ⟨sentence, more, htokens⟩ := hstuck.completion
      refine ⟨sentence, more, ?_, by simpa using htokens⟩
      rintro rfl
      exact hsentence sentence (by simpa using htokens)
  | cons blamed after =>
      left
      refine ⟨wanted.error_atToken _, before, blamed, after, rfl, rfl, hstuck.completion, ?_, ?_⟩
      · intro hbegins
        obtain ⟨sentence, more, htokens, hmore⟩ := hbegins.named (by
          rw [valuesOf, List.forall_mem_map]
          exact fun token hmem => hnamed token (by simp at hmem ⊢; grind))
        -- A sentence that goes on from here would be rejected at the same token.
        have hrejected := (hparse start before (blamed :: inOnePlace more) traced log rfl rfl hbefore).1 hfits
        refine ne_sentence ?_ hrejected hlimits sentence (by simpa [valuesOf_inOnePlace] using htokens)
        simp only [inOnePlace, List.forall_mem_append, List.forall_mem_cons, List.forall_mem_map]
        exact ⟨hbefore, hnamed blamed (by simp), hmore⟩
      · intro start' after' traced' log'
        exact (hparse start' before (blamed :: after') traced' log' rfl rfl hbefore).1 hfits

/-- A call whose opening parenthesis comes before an operator. -/
def brokenCall : List (Spanned Token) :=
  inOnePlace [.identifier ⟨"f"⟩, .symbol .openParen, .symbol .times]

/-- Although an argument has been looked for there, it is the closing parenthesis that is missed. -/
theorem parse_blames_brokenCall :
    (∀ token ∈ brokenCall, token.value.Named) ∧
    (parse default brokenCall false #[]).1 =
      .error ⟨.unexpectedToken (.symbol .closeParen) (.symbol .times), default⟩ ∧
    ¬ BeginsSentence (valuesOf brokenCall) := by
  have hnamed : ∀ token ∈ brokenCall, token.value.Named := by simp [brokenCall, inOnePlace, Token.Named]
  have hparse : (parse default brokenCall false #[]).1 =
      .error ⟨.unexpectedToken (.symbol .closeParen) (.symbol .times), default⟩ := rfl
  refine ⟨hnamed, hparse, ?_⟩
  rintro ⟨sentence, more, hbegins⟩
  rcases parse_blames _ _ _ _ _ hnamed hparse (by simp) with
    ⟨-, before, blamed, after, htokens, -, -, hnone, -⟩ | ⟨hend, -⟩
  · exact hnone ⟨sentence, valuesOf after ++ more, by simpa [htokens] using hbegins⟩
  · exact hend.elim

end Parser

end FormulaCompiler
