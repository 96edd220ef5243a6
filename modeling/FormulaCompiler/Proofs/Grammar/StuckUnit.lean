import FormulaCompiler.Proofs.Grammar.Sentence
import FormulaCompiler.Proofs.Grammar.Stuck

/-!
# Where units get stuck

The counterpart of `Stuck` for statements and for whole units. Main statements: what has been read where a
unit gets stuck is the beginning of some sentence (`UnitStuck.completion`), and any tokens either are a
sentence or get stuck (`splitsUnit`).
-/

namespace FormulaCompiler

theorem Stuck.inside {next : Option Token} {wanted : Wanted} {c : Category} {read : List Token}
    {nesting height : Nat} (h : Stuck next wanted c read nesting height) : ∀ token ∈ read, token.Inside := by
  obtain ⟨phrase, more, htokens⟩ := h.completion
  exact fun token hmem => phrase.inside token (htokens ▸ List.mem_append_left more hmem)

/-- Whether what comes next is no name. -/
def NamesNone (next : Option Token) : Prop := ∀ name, next ≠ some (.identifier name)

/-- Some tokens that have been `read` begin a statement, but what is `wanted` after them is not `next`. -/
inductive StatementStuck (next : Option Token) : Wanted → (read : List Token) → Prop where
  | beforeBound (binding : Binding) (hnext : NamesNone next) :
      StatementStuck next .name [.keyword binding.keyword]
  | afterBound (binding : Binding) (name : Identifier) (hnext : next ≠ some (.symbol .assign)) :
      StatementStuck next (.symbol .assign) [.keyword binding.keyword, .identifier name]
  | inBound {wanted : Wanted} {read : List Token} {nesting height : Nat} (binding : Binding)
      (name : Identifier) (value : Stuck next wanted .expression read nesting height) :
      StatementStuck next wanted
        (.keyword binding.keyword :: .identifier name :: .symbol .assign :: read)
  | beforeFunction (hnext : NamesNone next) : StatementStuck next .name [.keyword .fnDecl]
  | afterFunction (name : Identifier) (hnext : next ≠ some (.symbol .openParen)) :
      StatementStuck next (.symbol .openParen) [.keyword .fnDecl, .identifier name]
  | afterParameters (name : Identifier) (parameters : List Identifier)
      (hnone : parameters = [] → NamesNone next) (hcomma : parameters ≠ [] → next ≠ some (.symbol .comma))
      (hclose : next ≠ some (.symbol .closeParen)) :
      StatementStuck next (.symbol .closeParen)
        (.keyword .fnDecl :: .identifier name :: .symbol .openParen :: parameterTokens parameters)
  | beforeParameter (name first : Identifier) (others : List Identifier) (hnext : NamesNone next) :
      StatementStuck next .name
        (.keyword .fnDecl :: .identifier name :: .symbol .openParen ::
          (parameterTokens (first :: others) ++ [.symbol .comma]))
  | beforeBody (name : Identifier) (parameters : List Identifier) (hnext : next ≠ some (.symbol .assign)) :
      StatementStuck next (.symbol .assign)
        (.keyword .fnDecl :: .identifier name :: .symbol .openParen ::
          (parameterTokens parameters ++ [.symbol .closeParen]))
  | inBody {wanted : Wanted} {read : List Token} {nesting height : Nat} (name : Identifier)
      (parameters : List Identifier) (body : Stuck next wanted .expression read nesting height) :
      StatementStuck next wanted
        (.keyword .fnDecl :: .identifier name :: .symbol .openParen ::
          (parameterTokens parameters ++ .symbol .closeParen :: .symbol .assign :: read))
  | inAssigned {wanted : Wanted} {read : List Token} {nesting height : Nat} (target : Identifier)
      (value : Stuck next wanted .expression read nesting height) :
      StatementStuck next wanted (.identifier target :: .symbol .assign :: read)
  | inBare {wanted : Wanted} {read : List Token} {nesting height : Nat}
      (value : Stuck next wanted .expression read nesting height)
      (hkeyword : read = [] → ∀ word, next ≠ some (.keyword word))
      (hassign : ∀ target, read = [.identifier target] → next ≠ some (.symbol .assign)) :
      StatementStuck next wanted read

/-- **What has been read where a statement gets stuck begins a statement.** -/
theorem StatementStuck.completion {next : Option Token} {wanted : Wanted} {read : List Token}
    (h : StatementStuck next wanted read) :
    ∃ (statement : Statement) (more : List Token), statement.tokens = read ++ more := by
  -- Whatever is not there yet is a number or a name of one letter.
  have value : Phrase .expression :=
    .ofSum (.ofProduct (.ofPower (.ofSigned (.ofAtom (.number (.ofInt 0))))))
  have name : Identifier := ⟨"x"⟩
  cases h with
  | beforeBound binding => exact ⟨.bound binding name value, _, rfl⟩
  | afterBound binding name => exact ⟨.bound binding name value, _, rfl⟩
  | inBound binding name h =>
      obtain ⟨value, more, htokens⟩ := h.completion
      exact ⟨.bound binding name value, more, by simp [Statement.tokens, htokens]⟩
  | beforeFunction => exact ⟨.function name [] value, _, rfl⟩
  | afterFunction name => exact ⟨.function name [] value, _, rfl⟩
  | afterParameters name parameters => exact ⟨.function name parameters value, _, rfl⟩
  | beforeParameter name first others =>
      exact ⟨.function name (first :: (others ++ [⟨"x"⟩])) value, _,
        by simp [Statement.tokens, parameterTokens]; rfl⟩
  | beforeBody name parameters =>
      exact ⟨.function name parameters value, _, by simp [Statement.tokens]; rfl⟩
  | inBody name parameters h =>
      obtain ⟨body, more, htokens⟩ := h.completion
      exact ⟨.function name parameters body, more, by simp [Statement.tokens, htokens]⟩
  | inAssigned target h =>
      obtain ⟨value, more, htokens⟩ := h.completion
      exact ⟨.assigned target value, more, by simp [Statement.tokens, htokens]⟩
  | inBare h =>
      obtain ⟨value, more, htokens⟩ := h.completion
      exact ⟨.bare value, more, htokens⟩

/-- Some tokens that have been `read` begin a sentence, but what is `wanted` after them is not `next`. -/
inductive UnitStuck (next : Option Token) : Wanted → (read : List Token) → Prop where
  | inFirst {wanted : Wanted} {read : List Token} (first : StatementStuck next wanted read) :
      UnitStuck next wanted read
  | inFurther {wanted : Wanted} {read : List Token} (first : Statement) (others : List Statement)
      (statement : StatementStuck next wanted read) (hread : read = [] → next ≠ none) :
      UnitStuck next wanted (seriesTokens first others ++ .symbol .semicolon :: read)
  | afterStatement {token : Token} (first : Statement) (others : List Statement)
      (hnext : next = some token) (hsemicolon : token ≠ .symbol .semicolon)
      (hclosed : ∀ last ∈ (first :: others).getLast?, last.Closed [token]) :
      UnitStuck next .separator (seriesTokens first others)

theorem seriesTokens_concat (first last : Statement) (others : List Statement) :
    seriesTokens first (others ++ [last]) =
      seriesTokens first others ++ .symbol .semicolon :: last.tokens := by
  simp [seriesTokens]

/-- **What has been read where a unit gets stuck begins a sentence.** -/
theorem UnitStuck.completion {next : Option Token} {wanted : Wanted} {read : List Token}
    (h : UnitStuck next wanted read) :
    ∃ (sentence : Sentence) (more : List Token), sentence.tokens = read ++ more := by
  cases h with
  | inFirst h =>
      obtain ⟨first, more, htokens⟩ := h.completion
      exact ⟨⟨first, [], false⟩, more, by simp [Sentence.tokens, seriesTokens, htokens]⟩
  | inFurther first others h =>
      obtain ⟨last, more, htokens⟩ := h.completion
      exact ⟨⟨first, others ++ [last], false⟩, more,
        by simp [Sentence.tokens, seriesTokens_concat, htokens]⟩
  | afterStatement first others => exact ⟨⟨first, others, false⟩, [], rfl⟩

/-! ### Any tokens split -/

/-- Tokens begin with a statement that ends in front of the rest, or they get stuck in one. -/
def StatementSplits (values : List Token) : Prop :=
  (∃ (statement : Statement) (rest : List Token), values = statement.tokens ++ rest ∧ statement.Closed rest) ∨
  ∃ (wanted : Wanted) (read rest : List Token), values = read ++ rest ∧ StatementStuck rest.head? wanted read

/-- The further parameters of a function, as many as there are. -/
private theorem splitsParameters (values : List Token) :
    ∃ (others : List Identifier) (rest : List Token),
      values = (others.flatMap fun name => [.symbol .comma, .identifier name]) ++ rest ∧
        ∀ name more, rest ≠ .symbol .comma :: .identifier name :: more := by
  induction hlength : values.length using Nat.strongRecOn generalizing values
  rename_i ih
  by_cases hmore : ∃ name more, values = .symbol .comma :: .identifier name :: more
  · obtain ⟨name, more, rfl⟩ := hmore
    obtain ⟨others, rest, rfl, hrest⟩ := ih more.length
      (by simp only [← hlength, List.length_cons]; omega) more rfl
    exact ⟨name :: others, rest, by simp, hrest⟩
  · exact ⟨[], values, rfl, fun name more h => hmore ⟨name, more, h⟩⟩

namespace StatementSplits

theorem bound (binding : Binding) (rest : List Token) :
    StatementSplits (.keyword binding.keyword :: rest) := by
  by_cases hname : NamesNone rest.head?
  · exact .inr ⟨_, [_], rest, rfl, .beforeBound binding hname⟩
  · simp only [NamesNone, ne_eq, Classical.not_forall, Classical.not_not, List.head?_eq_some_iff] at hname
    obtain ⟨name, rest, rfl⟩ := hname
    by_cases hassign : rest.head? = some (.symbol .assign)
    · obtain ⟨rest, rfl⟩ := List.head?_eq_some_iff.1 hassign
      rcases splits (c := .expression) nofun rest with
        ⟨value, rest, rfl, hclosed, -⟩ | ⟨wanted, read, rest, _, _, rfl, h⟩
      · exact .inl ⟨.bound binding name value, rest, rfl, hclosed⟩
      · exact .inr ⟨_, _, rest, rfl, .inBound binding name h⟩
    · exact .inr ⟨_, [_, _], rest, rfl, .afterBound binding name hassign⟩

/-- What comes after the parameters of a function. -/
private theorem body (name : Identifier) (parameters : List Identifier) (rest : List Token) :
    StatementSplits (.keyword .fnDecl :: .identifier name :: .symbol .openParen ::
      (parameterTokens parameters ++ .symbol .closeParen :: rest)) := by
  by_cases hassign : rest.head? = some (.symbol .assign)
  · obtain ⟨rest, rfl⟩ := List.head?_eq_some_iff.1 hassign
    rcases splits (c := .expression) nofun rest with
      ⟨body, rest, rfl, hclosed, -⟩ | ⟨wanted, read, rest, _, _, rfl, h⟩
    · exact .inl ⟨.function name parameters body, rest, by simp [Statement.tokens], hclosed⟩
    · exact .inr ⟨_, _, rest, by simp, .inBody name parameters h⟩
  · exact .inr ⟨_, _, rest, by simp, .beforeBody name parameters hassign⟩

theorem function (rest : List Token) : StatementSplits (.keyword .fnDecl :: rest) := by
  by_cases hname : NamesNone rest.head?
  · exact .inr ⟨_, [_], rest, rfl, .beforeFunction hname⟩
  simp only [NamesNone, ne_eq, Classical.not_forall, Classical.not_not, List.head?_eq_some_iff] at hname
  obtain ⟨name, rest, rfl⟩ := hname
  by_cases hopen : rest.head? = some (.symbol .openParen)
  case neg => exact .inr ⟨_, [_, _], rest, rfl, .afterFunction name hopen⟩
  obtain ⟨rest, rfl⟩ := List.head?_eq_some_iff.1 hopen
  by_cases hfirst : NamesNone rest.head?
  · by_cases hclose : rest.head? = some (.symbol .closeParen)
    · obtain ⟨rest, rfl⟩ := List.head?_eq_some_iff.1 hclose
      exact body name [] rest
    · exact .inr ⟨_, [_, _, _], rest, rfl, .afterParameters name [] (fun _ => hfirst) (by simp) hclose⟩
  simp only [NamesNone, ne_eq, Classical.not_forall, Classical.not_not, List.head?_eq_some_iff] at hfirst
  obtain ⟨first, rest, rfl⟩ := hfirst
  obtain ⟨others, rest, rfl, hmore⟩ := splitsParameters rest
  by_cases hcomma : rest.head? = some (.symbol .comma)
  · obtain ⟨rest, rfl⟩ := List.head?_eq_some_iff.1 hcomma
    refine .inr ⟨_, _, rest, ?_, .beforeParameter name first others ?_⟩
    · simp [parameterTokens]
    · intro name hhead
      obtain ⟨more, rfl⟩ := List.head?_eq_some_iff.1 hhead
      exact hmore name more rfl
  · by_cases hclose : rest.head? = some (.symbol .closeParen)
    · obtain ⟨rest, rfl⟩ := List.head?_eq_some_iff.1 hclose
      exact body name (first :: others) rest
    · exact .inr ⟨_, _, rest, rfl,
        .afterParameters name (first :: others) (by simp) (fun _ => hcomma) hclose⟩

theorem bare {values : List Token} (hkeyword : ∀ word, values.head? ≠ some (.keyword word))
    (hassign : ¬ OpensAssignment values) : StatementSplits values := by
  rcases splits (c := .expression) nofun values with
    ⟨value, rest, rfl, hclosed, -⟩ | ⟨wanted, read, rest, _, _, rfl, h⟩
  · refine .inl ⟨.bare value, rest, rfl, ?_⟩
    rintro token hhead (h | ⟨rfl, name, hname⟩)
    · exact hclosed token hhead h
    · obtain ⟨more, rfl⟩ := List.head?_eq_some_iff.1 hhead
      exact hassign ⟨name, more, by rw [hname]; rfl⟩
  · refine .inr ⟨_, read, rest, rfl, .inBare h ?_ ?_⟩
    · rintro rfl
      exact hkeyword
    · rintro target rfl hhead
      obtain ⟨more, rfl⟩ := List.head?_eq_some_iff.1 hhead
      exact hassign ⟨target, more, rfl⟩

end StatementSplits

theorem splitsStatement (values : List Token) : StatementSplits values := by
  by_cases hkeyword : ∃ word, values.head? = some (.keyword word)
  · obtain ⟨word, hhead⟩ := hkeyword
    obtain ⟨rest, rfl⟩ := List.head?_eq_some_iff.1 hhead
    cases word with
    | constDecl => exact .bound .constant rest
    | letDecl => exact .bound .variable rest
    | fnDecl => exact .function rest
  by_cases hassign : OpensAssignment values
  · obtain ⟨target, rest, rfl⟩ := hassign
    rcases splits (c := .expression) nofun rest with
      ⟨value, rest, rfl, hclosed, -⟩ | ⟨wanted, read, rest, _, _, rfl, h⟩
    · exact .inl ⟨.assigned target value, rest, rfl, hclosed⟩
    · exact .inr ⟨_, _, rest, rfl, .inAssigned target h⟩
  exact .bare (fun word h => hkeyword ⟨word, h⟩) hassign

/-- Some tokens are a sentence, or they get stuck. -/
def UnitSplits (values : List Token) : Prop :=
  (∃ sentence : Sentence, values = sentence.tokens) ∨
  ∃ (wanted : Wanted) (read rest : List Token), values = read ++ rest ∧ UnitStuck rest.head? wanted read

/-- What comes after statements that have been read. -/
private theorem splitsSeries (first : Statement) (others : List Statement) (rest : List Token)
    (hclosed : ∀ last ∈ (first :: others).getLast?, last.Closed rest) :
    UnitSplits (seriesTokens first others ++ rest) := by
  induction hlength : rest.length using Nat.strongRecOn generalizing others rest
  rename_i ih
  cases rest with
  | nil => exact .inl ⟨⟨first, others, false⟩, by simp [Sentence.tokens]⟩
  | cons token rest =>
      by_cases hsemicolon : token = .symbol .semicolon
      · subst hsemicolon
        by_cases hrest : rest = []
        · exact .inl ⟨⟨first, others, true⟩, by simp [Sentence.tokens, hrest]⟩
        rcases splitsStatement rest with ⟨last, rest', rfl, hlast⟩ | ⟨wanted, read, rest, rfl, h⟩
        · have hfurther := ih rest'.length
            (by simp only [← hlength, List.length_cons, List.length_append]; omega) (others ++ [last]) rest' ?_ rfl
          · simpa [seriesTokens_concat] using hfurther
          · simpa [List.getLast?_cons] using hlast
        · refine .inr ⟨_, _, rest, by simp, .inFurther first others h ?_⟩
          rintro rfl hhead
          simp [List.head?_eq_none_iff.1 hhead] at hrest
      · refine .inr ⟨_, _, token :: rest, rfl, .afterStatement first others rfl hsemicolon ?_⟩
        exact fun last hmem found hfound => hclosed last hmem found hfound

/-- **Any tokens are a sentence or get stuck.** -/
theorem splitsUnit (values : List Token) : UnitSplits values := by
  rcases splitsStatement values with ⟨first, rest, rfl, hfirst⟩ | ⟨wanted, read, rest, rfl, h⟩
  · simpa [seriesTokens] using splitsSeries first [] rest (by simpa using hfirst)
  · exact .inr ⟨_, _, rest, rfl, .inFirst h⟩

end FormulaCompiler
