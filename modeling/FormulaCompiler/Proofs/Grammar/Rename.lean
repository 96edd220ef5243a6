import FormulaCompiler.Proofs.Grammar.Sentence

/-!
# Names in sentences

The grammar does not look at how names are spelt: when all names of a sentence are exchanged for others, a
sentence is left.
-/

namespace FormulaCompiler

variable (f : Identifier → Identifier)

/-- Exchanges the name in a token, if there is one. -/
def Token.rename : Token → Token
  | identifier name => identifier (f name)
  | token => token

namespace Phrase

def rename : {c : Category} → Phrase c → Phrase c
  | _, number value => number value
  | _, name used => name (f used)
  | _, bareCall callee => bareCall (f callee)
  | _, call callee arguments => call (f callee) arguments.rename
  | _, enclosed inner => enclosed inner.rename
  | _, ofAtom atom => ofAtom atom.rename
  | _, negated operand => negated operand.rename
  | _, ofSigned base => ofSigned base.rename
  | _, raised base exponent => raised base.rename exponent.rename
  | _, ofPower first => ofPower first.rename
  | _, multiplied left mark right => multiplied left.rename mark right.rename
  | _, ofProduct first => ofProduct first.rename
  | _, added left mark right => added left.rename mark right.rename
  | _, ofSum sum => ofSum sum.rename
  | _, compared left mark right => compared left.rename mark right.rename
  | _, argument value => argument value.rename
  | _, furtherArgument before value => furtherArgument before.rename value.rename

theorem tokens_rename {c : Category} (phrase : Phrase c) :
    (phrase.rename f).tokens = phrase.tokens.map (Token.rename f) := by
  induction phrase with
  | _ => simp_all [rename, tokens, Token.rename]

end Phrase

def Statement.rename : Statement → Statement
  | bound binding name value => bound binding (f name) (value.rename f)
  | function name parameters body => function (f name) (parameters.map f) (body.rename f)
  | assigned target value => assigned (f target) (value.rename f)
  | bare value => bare (value.rename f)

theorem parameterTokens_map (parameters : List Identifier) :
    parameterTokens (parameters.map f) = (parameterTokens parameters).map (Token.rename f) := by
  cases parameters with
  | nil => rfl
  | cons first others => simp [parameterTokens, Token.rename, List.map_flatMap, List.flatMap_map]

theorem Statement.tokens_rename (statement : Statement) :
    (statement.rename f).tokens = statement.tokens.map (Token.rename f) := by
  cases statement with
  | _ => simp [rename, tokens, Token.rename, Phrase.tokens_rename, parameterTokens_map]

def Sentence.rename (sentence : Sentence) : Sentence where
  first := sentence.first.rename f
  others := sentence.others.map (Statement.rename f)
  trailing := sentence.trailing

theorem Sentence.tokens_rename (sentence : Sentence) :
    (sentence.rename f).tokens = sentence.tokens.map (Token.rename f) := by
  obtain ⟨first, others, trailing⟩ := sentence
  cases trailing <;>
    simp [rename, tokens, seriesTokens, Token.rename, Statement.tokens_rename, List.map_flatMap,
      List.flatMap_map]

/-! ### Names of at least one character -/

/-- Gives a name without characters one. -/
def Identifier.spelt (name : Identifier) : Identifier := if name.spelling = "" then ⟨"x"⟩ else name

theorem Token.named_rename_spelt (token : Token) : (token.rename Identifier.spelt).Named := by
  cases token with
  | identifier name =>
      simp only [rename, Named, Identifier.spelt]
      split
      · decide
      · assumption
  | _ => trivial

theorem Token.rename_spelt {token : Token} (h : token.Named) : token.rename Identifier.spelt = token := by
  cases token with
  | identifier name => exact congrArg identifier (if_neg h)
  | _ => rfl

/-- Whether tokens are the beginning of some sentence. -/
def BeginsSentence (values : List Token) : Prop :=
  ∃ (sentence : Sentence) (more : List Token), sentence.tokens = values ++ more

/-- What comes after the beginning of a sentence may be chosen without empty names. -/
theorem BeginsSentence.named {values : List Token} (h : BeginsSentence values)
    (hnamed : ∀ token ∈ values, token.Named) :
    ∃ (sentence : Sentence) (more : List Token), sentence.tokens = values ++ more ∧ ∀ token ∈ more, token.Named := by
  obtain ⟨sentence, more, htokens⟩ := h
  have hvalues : values.map (Token.rename Identifier.spelt) = values := by
    rw [List.map_congr_left fun token hmem => Token.rename_spelt (hnamed token hmem), List.map_id']
  refine ⟨sentence.rename Identifier.spelt, more.map (Token.rename Identifier.spelt), ?_, ?_⟩
  · rw [Sentence.tokens_rename, htokens, List.map_append, hvalues]
  · exact List.forall_mem_map.2 fun token _ => token.named_rename_spelt

end FormulaCompiler
