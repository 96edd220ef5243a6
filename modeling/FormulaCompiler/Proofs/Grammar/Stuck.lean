import FormulaCompiler.SyntaxError
import FormulaCompiler.Proofs.Grammar.Phrase

/-!
# Where phrases get stuck

Tokens that no phrase begins with get stuck: some of them begin a phrase, and neither does the next one go
on with it nor is the phrase complete. `Stuck` describes how, one constructor for each place of a production
where something else may come than what the production wants. Main statements: what has been read when a
phrase gets stuck can always be completed (`Stuck.completion`), and any tokens either begin with a phrase
that ends in front of the rest or get stuck (`splits`).
-/

namespace FormulaCompiler

/-- What a production wants at a place. -/
inductive Wanted where
  | expression
  | name
  | separator
  | symbol (mark : Symbol)

/-- The error where something is wanted that does not come next. -/
def Wanted.error : Wanted → (next : Option Token) → SyntaxError
  | .symbol mark, some token => .unexpectedToken (.symbol mark) token
  | .symbol mark, none => .missingToken (.symbol mark)
  | .expression, some _ => .expectedExpression
  | .name, some _ => .expectedIdentifier
  | .separator, some _ => .expectedSeparator
  | _, none => .unexpectedEnd

/-- Whether an expression cannot begin with what comes next. -/
def StartsNone (next : Option Token) : Prop := ∀ token, next = some token → ¬ token.StartsPhrase

/-- Some tokens that have been `read` begin a phrase of a category, but what is `wanted` after them is not
`next`. The last two numbers are how deep the tokens nest and how high the highest tree in them is. -/
inductive Stuck (next : Option Token) : Wanted → Category → (read : List Token) → Nat → Nat → Prop where
  | nothing (hnext : StartsNone next) : Stuck next .expression .atom [] 0 0
  | inArguments {wanted : Wanted} {read : List Token} {nesting height : Nat} (callee : Identifier)
      (arguments : Stuck next wanted .arguments read nesting height) (hread : read = [] → next = none) :
      Stuck next wanted .atom (.identifier callee :: .symbol .openParen :: read) (nesting + 1) height
  | afterOpenParen {token : Token} (callee : Identifier) (hnext : next = some token)
      (hstart : ¬ token.StartsPhrase) (hclose : token ≠ .symbol .closeParen) :
      Stuck next (.symbol .closeParen) .atom [.identifier callee, .symbol .openParen] 1 0
  | afterArguments (callee : Identifier) (arguments : Phrase .arguments)
      (hclosed : ∀ token, next = some token → ¬ arguments.Absorbs token)
      (hcomma : next ≠ some (.symbol .comma)) (hclose : next ≠ some (.symbol .closeParen)) :
      Stuck next (.symbol .closeParen) .atom
        (.identifier callee :: .symbol .openParen :: arguments.tokens) (arguments.nesting + 1)
        arguments.height
  | inEnclosed {wanted : Wanted} {read : List Token} {nesting height : Nat}
      (inner : Stuck next wanted .expression read nesting height) :
      Stuck next wanted .atom (.symbol .openParen :: read) (nesting + 1) height
  | afterEnclosed (inner : Phrase .expression)
      (hclosed : ∀ token, next = some token → ¬ inner.Absorbs token)
      (hclose : next ≠ some (.symbol .closeParen)) :
      Stuck next (.symbol .closeParen) .atom (.symbol .openParen :: inner.tokens) (inner.nesting + 1)
        inner.height
  | inAtom {wanted : Wanted} {read : List Token} {nesting height : Nat}
      (atom : Stuck next wanted .atom read nesting height) : Stuck next wanted .signed read nesting height
  | inNegated {wanted : Wanted} {read : List Token} {nesting height : Nat}
      (operand : Stuck next wanted .signed read nesting height) :
      Stuck next wanted .signed (.symbol .minus :: read) (nesting + 1) height
  | inBase {wanted : Wanted} {read : List Token} {nesting height : Nat}
      (base : Stuck next wanted .signed read nesting height) : Stuck next wanted .power read nesting height
  | inExponent {wanted : Wanted} {read : List Token} {nesting height : Nat} (base : Phrase .signed)
      (exponent : Stuck next wanted .power read nesting height) :
      Stuck next wanted .power (base.tokens ++ .symbol .caret :: read) (max base.nesting (nesting + 1))
        (max base.height height)
  | inFirstFactor {wanted : Wanted} {read : List Token} {nesting height : Nat}
      (first : Stuck next wanted .power read nesting height) : Stuck next wanted .product read nesting height
  | inFactor {wanted : Wanted} {read : List Token} {nesting height : Nat} (left : Phrase .product)
      (mark : BinaryMark .product) (right : Stuck next wanted .power read nesting height) :
      Stuck next wanted .product (left.tokens ++ .symbol mark.symbol :: read) (max left.nesting nesting)
        (max left.height height)
  | inFirstTerm {wanted : Wanted} {read : List Token} {nesting height : Nat}
      (first : Stuck next wanted .product read nesting height) : Stuck next wanted .sum read nesting height
  | inTerm {wanted : Wanted} {read : List Token} {nesting height : Nat} (left : Phrase .sum)
      (mark : BinaryMark .sum) (right : Stuck next wanted .product read nesting height) :
      Stuck next wanted .sum (left.tokens ++ .symbol mark.symbol :: read) (max left.nesting nesting)
        (max left.height height)
  | inLeftSide {wanted : Wanted} {read : List Token} {nesting height : Nat}
      (left : Stuck next wanted .sum read nesting height) :
      Stuck next wanted .expression read nesting height
  | inRightSide {wanted : Wanted} {read : List Token} {nesting height : Nat} (left : Phrase .sum)
      (mark : BinaryMark .comparison) (right : Stuck next wanted .sum read nesting height) :
      Stuck next wanted .expression (left.tokens ++ .symbol mark.symbol :: read) (max left.nesting nesting)
        (max left.height height)
  | inFirstArgument {wanted : Wanted} {read : List Token} {nesting height : Nat}
      (first : Stuck next wanted .expression read nesting height) :
      Stuck next wanted .arguments read nesting height
  | inArgument {wanted : Wanted} {read : List Token} {nesting height : Nat} (before : Phrase .arguments)
      (value : Stuck next wanted .expression read nesting height) :
      Stuck next wanted .arguments (before.tokens ++ .symbol .comma :: read) (max before.nesting nesting)
        (max before.height height)

namespace Stuck

variable {next : Option Token} {wanted : Wanted} {c : Category} {read : List Token} {nesting height : Nat}

/-- A phrase gets stuck before its first token only on a token that begins none. -/
theorem startsNone (h : Stuck next wanted c read nesting height) (hread : read = []) : StartsNone next := by
  induction h with
  | nothing hnext => exact hnext
  | inAtom _ ih => exact ih hread
  | inBase _ ih => exact ih hread
  | inFirstFactor _ ih => exact ih hread
  | inFirstTerm _ ih => exact ih hread
  | inLeftSide _ ih => exact ih hread
  | inFirstArgument _ ih => exact ih hread
  | _ => simp at hread

theorem head?_ne_minus (h : Stuck next wanted .atom read nesting height) {rest : List Token}
    (hrest : rest.head? = next) : (read ++ rest).head? ≠ some (.symbol .minus) := by
  cases h with
  | nothing hnext =>
      rw [List.nil_append, hrest]
      exact fun hminus => hnext _ hminus trivial
  | _ => simp

/-- **What has been read where a phrase gets stuck begins a phrase.** -/
theorem completion (h : Stuck next wanted c read nesting height) :
    ∃ (phrase : Phrase c) (more : List Token), phrase.tokens = read ++ more := by
  induction h with
  | nothing => exact ⟨.number (.ofInt 0), _, rfl⟩
  | inArguments callee _ _ ih =>
      obtain ⟨arguments, more, htokens⟩ := ih
      exact ⟨.call callee arguments, more ++ [.symbol .closeParen], by simp [Phrase.tokens, htokens]⟩
  | afterOpenParen callee => exact ⟨.bareCall callee, _, rfl⟩
  | afterArguments callee arguments => exact ⟨.call callee arguments, [.symbol .closeParen], rfl⟩
  | inEnclosed _ ih =>
      obtain ⟨inner, more, htokens⟩ := ih
      exact ⟨.enclosed inner, more ++ [.symbol .closeParen], by simp [Phrase.tokens, htokens]⟩
  | afterEnclosed inner => exact ⟨.enclosed inner, [.symbol .closeParen], rfl⟩
  | inAtom _ ih =>
      obtain ⟨atom, more, htokens⟩ := ih
      exact ⟨.ofAtom atom, more, htokens⟩
  | inNegated _ ih =>
      obtain ⟨operand, more, htokens⟩ := ih
      exact ⟨.negated operand, more, by simp [Phrase.tokens, htokens]⟩
  | inBase _ ih =>
      obtain ⟨base, more, htokens⟩ := ih
      exact ⟨.ofSigned base, more, htokens⟩
  | inExponent base _ ih =>
      obtain ⟨exponent, more, htokens⟩ := ih
      exact ⟨.raised base exponent, more, by simp [Phrase.tokens, htokens]⟩
  | inFirstFactor _ ih =>
      obtain ⟨first, more, htokens⟩ := ih
      exact ⟨.ofPower first, more, htokens⟩
  | inFactor left mark _ ih =>
      obtain ⟨right, more, htokens⟩ := ih
      exact ⟨.multiplied left mark right, more, by simp [Phrase.tokens, htokens]⟩
  | inFirstTerm _ ih =>
      obtain ⟨first, more, htokens⟩ := ih
      exact ⟨.ofProduct first, more, htokens⟩
  | inTerm left mark _ ih =>
      obtain ⟨right, more, htokens⟩ := ih
      exact ⟨.added left mark right, more, by simp [Phrase.tokens, htokens]⟩
  | inLeftSide _ ih =>
      obtain ⟨left, more, htokens⟩ := ih
      exact ⟨.ofSum left, more, htokens⟩
  | inRightSide left mark _ ih =>
      obtain ⟨right, more, htokens⟩ := ih
      exact ⟨.compared left mark right, more, by simp [Phrase.tokens, htokens]⟩
  | inFirstArgument _ ih =>
      obtain ⟨first, more, htokens⟩ := ih
      exact ⟨.argument first, more, htokens⟩
  | inArgument before _ ih =>
      obtain ⟨value, more, htokens⟩ := ih
      exact ⟨.furtherArgument before value, more, by simp [Phrase.tokens, htokens]⟩

end Stuck

/-! ### Any tokens split -/

/-- Tokens begin with a phrase of a category that ends in front of the rest, or they get stuck in one. -/
def Splits (c : Category) (values : List Token) : Prop :=
  (∃ (phrase : Phrase c) (rest : List Token), values = phrase.tokens ++ rest ∧ phrase.Closed rest ∧
    ∀ token, rest.head? = some token → ¬ c.Joins token) ∨
  ∃ (wanted : Wanted) (read rest : List Token) (nesting height : Nat), values = read ++ rest ∧
    Stuck rest.head? wanted c read nesting height

/-- All tokens fewer than some given ones split, in every category but the one of atoms, where a minus sign
does not stand. -/
def SplitsBelow (values : List Token) : Prop :=
  ∀ c : Category, c ≠ .atom → ∀ rest : List Token, rest.length < values.length → Splits c rest

namespace Splits

variable {c d : Category} {values rest : List Token}

theorem nothing (h : StartsNone values.head?) : Splits .atom values :=
  .inr ⟨_, [], values, _, _, rfl, .nothing h⟩

/-- What comes after the name of a function and an opening parenthesis. -/
theorem call (callee : Identifier) {inside : List Token} (h : Splits .arguments inside) :
    Splits .atom (.identifier callee :: .symbol .openParen :: inside) := by
  rcases h with ⟨arguments, rest, rfl, hclosed, hcomma⟩ | ⟨wanted, read, rest, _, _, rfl, h⟩
  · by_cases hclose : rest.head? = some (.symbol .closeParen)
    · obtain ⟨rest, rfl⟩ := List.head?_eq_some_iff.1 hclose
      exact .inl ⟨.call callee arguments, rest, by simp [Phrase.tokens], fun _ _ h => h, fun _ _ h => h⟩
    · exact .inr ⟨_, _, rest, _, _, rfl,
        .afterArguments callee arguments hclosed (fun h => hcomma _ h rfl) hclose⟩
  · by_cases hread : read = [] → rest.head? = none
    · exact .inr ⟨_, _, rest, _, _, rfl, .inArguments callee h hread⟩
    · simp only [Classical.not_imp, ← Option.isSome_iff_ne_none, Option.isSome_iff_exists] at hread
      obtain ⟨rfl, token, htoken⟩ := hread
      by_cases hclose : token = .symbol .closeParen
      · obtain ⟨rest, rfl⟩ := List.head?_eq_some_iff.1 htoken
        subst hclose
        exact .inl ⟨.bareCall callee, rest, rfl, fun _ _ h => h, fun _ _ h => h⟩
      · exact .inr ⟨_, [_, _], rest, _, _, rfl,
          .afterOpenParen callee htoken (h.startsNone rfl token htoken) hclose⟩

/-- What comes after an opening parenthesis that encloses an expression. -/
theorem enclosed {inside : List Token} (h : Splits .expression inside) :
    Splits .atom (.symbol .openParen :: inside) := by
  rcases h with ⟨inner, rest, rfl, hclosed, -⟩ | ⟨wanted, read, rest, _, _, rfl, h⟩
  · by_cases hclose : rest.head? = some (.symbol .closeParen)
    · obtain ⟨rest, rfl⟩ := List.head?_eq_some_iff.1 hclose
      exact .inl ⟨.enclosed inner, rest, by simp [Phrase.tokens], fun _ _ h => h, fun _ _ h => h⟩
    · exact .inr ⟨_, _, rest, _, _, rfl, .afterEnclosed inner hclosed hclose⟩
  · exact .inr ⟨_, _, rest, _, _, rfl, .inEnclosed h⟩

theorem atom (hminus : values.head? ≠ some (.symbol .minus)) (shorter : SplitsBelow values) : Splits .atom values := by
  by_cases hstart : StartsNone values.head?
  · exact nothing hstart
  · simp only [StartsNone, Classical.not_forall, Classical.not_not] at hstart
    obtain ⟨token, hhead, hstart⟩ := hstart
    obtain ⟨rest, rfl⟩ := List.head?_eq_some_iff.1 hhead
    obtain ⟨value, rfl⟩ | ⟨name, rfl⟩ | rfl | rfl := hstart.exists_eq
    · exact .inl ⟨.number value, rest, rfl, fun _ _ h => h, fun _ _ h => h⟩
    · by_cases hparen : rest.head? = some (.symbol .openParen)
      · obtain ⟨inside, rfl⟩ := List.head?_eq_some_iff.1 hparen
        exact call name (shorter .arguments nofun inside (by simp only [List.length_cons]; omega))
      · refine .inl ⟨.name name, rest, rfl, ?_, fun _ _ h => h⟩
        rintro token hhead rfl
        exact hparen hhead
    · exact enclosed (shorter .expression nofun rest (by simp))
    · exact absurd rfl hminus

theorem signed (shorter : SplitsBelow values) : Splits .signed values := by
  by_cases hminus : values.head? = some (.symbol .minus)
  · obtain ⟨rest, rfl⟩ := List.head?_eq_some_iff.1 hminus
    rcases shorter .signed nofun rest (by simp) with
      ⟨operand, rest, rfl, hclosed, hjoins⟩ | ⟨wanted, read, rest, _, _, rfl, h⟩
    · exact .inl ⟨.negated operand, rest, rfl, hclosed, hjoins⟩
    · exact .inr ⟨_, _, rest, _, _, rfl, .inNegated h⟩
  · rcases atom hminus shorter with
      ⟨atom, rest, hvalues, hclosed, hjoins⟩ | ⟨wanted, read, rest, _, _, hvalues, h⟩
    · exact .inl ⟨.ofAtom atom, rest, hvalues, hclosed, hjoins⟩
    · exact .inr ⟨_, _, rest, _, _, hvalues, .inAtom h⟩

theorem power (shorter : SplitsBelow values) : Splits .power values := by
  rcases signed shorter with ⟨base, rest, rfl, hclosed, hjoins⟩ | ⟨wanted, read, rest, _, _, hvalues, h⟩
  · by_cases hcaret : rest.head? = some (.symbol .caret)
    · obtain ⟨rest, rfl⟩ := List.head?_eq_some_iff.1 hcaret
      rcases shorter .power nofun rest (by simp; omega) with
        ⟨exponent, rest, rfl, hclosed, hjoins⟩ | ⟨wanted, read, rest, _, _, rfl, h⟩
      · exact .inl ⟨.raised base exponent, rest, by simp [Phrase.tokens], hclosed, hjoins⟩
      · exact .inr ⟨_, _, rest, _, _, by simp, .inExponent base h⟩
    · refine .inl ⟨.ofSigned base, rest, rfl, ?_, hjoins⟩
      rintro token hhead (h | rfl)
      · exact hclosed token hhead h
      · exact hcaret hhead
  · exact .inr ⟨_, _, rest, _, _, hvalues, .inBase h⟩

/-- The loop over the further operands of a phrase, which joins one after the other to it. -/
theorem loop
    (hjoin : ∀ (left : Phrase c) {token : Token} (rest : List Token), c.Joins token → Splits d rest →
      (∃ (joined : Phrase c) (rest' : List Token),
        left.tokens ++ token :: rest = joined.tokens ++ rest' ∧ joined.Closed rest' ∧
          rest'.length ≤ rest.length) ∨
      ∃ (wanted : Wanted) (read rest' : List Token) (nesting height : Nat),
        left.tokens ++ token :: rest = read ++ rest' ∧ Stuck rest'.head? wanted c read nesting height)
    (shorter : ∀ rest : List Token, rest.length < values.length → Splits d rest)
    (left : Phrase c) {rest : List Token} (hvalues : values = left.tokens ++ rest)
    (hclosed : left.Closed rest) : Splits c values := by
  induction hlength : rest.length using Nat.strongRecOn generalizing rest left
  rename_i ih
  by_cases hjoins : ∃ token, rest.head? = some token ∧ c.Joins token
  · obtain ⟨token, hhead, hjoins⟩ := hjoins
    obtain ⟨rest, rfl⟩ := List.head?_eq_some_iff.1 hhead
    have hrest : rest.length < values.length := by simp [hvalues]; omega
    rcases hjoin left rest hjoins (shorter rest hrest) with
      ⟨joined, rest', heq, hclosed, hle⟩ | ⟨wanted, read, rest', _, _, heq, h⟩
    · refine ih rest'.length ?_ joined (hvalues.trans heq) hclosed rfl
      rw [← hlength, List.length_cons]
      omega
    · exact .inr ⟨wanted, read, rest', _, _, hvalues.trans heq, h⟩
  · exact .inl ⟨left, rest, hvalues, hclosed, fun token hhead h => hjoins ⟨token, hhead, h⟩⟩
theorem product (shorter : SplitsBelow values) : Splits .product values := by
  rcases power shorter with ⟨first, rest, hvalues, hclosed, -⟩ | ⟨wanted, read, rest, _, _, hvalues, h⟩
  · refine loop (fun left token rest hjoins hrest => ?_) (shorter .power nofun) (.ofPower first) hvalues hclosed
    obtain ⟨mark, rfl⟩ := hjoins
    rcases hrest with ⟨right, rest, rfl, hclosed, -⟩ | ⟨wanted, read, rest, _, _, rfl, h⟩
    · exact .inl ⟨.multiplied left mark right, rest, by simp [Phrase.tokens], hclosed, by simp⟩
    · exact .inr ⟨_, _, rest, _, _, by simp, .inFactor left mark h⟩
  · exact .inr ⟨_, _, rest, _, _, hvalues, .inFirstFactor h⟩

private theorem not_or {rest : List Token} {last joins : Token → Prop}
    (hlast : ∀ token, rest.head? = some token → ¬ last token)
    (hjoins : ∀ token, rest.head? = some token → ¬ joins token) :
    ∀ token, rest.head? = some token → ¬ (last token ∨ joins token) :=
  fun token hhead h => h.elim (hlast token hhead) (hjoins token hhead)

theorem sum (shorter : SplitsBelow values) : Splits .sum values := by
  rcases product shorter with ⟨first, rest, hvalues, hclosed, hjoins⟩ | ⟨wanted, read, rest, _, _, hvalues, h⟩
  · refine loop (fun left token rest hjoins hrest => ?_) (shorter .product nofun) (.ofProduct first) hvalues
      (not_or hclosed hjoins)
    obtain ⟨mark, rfl⟩ := hjoins
    rcases hrest with ⟨right, rest, rfl, hclosed, hjoins⟩ | ⟨wanted, read, rest, _, _, rfl, h⟩
    · exact .inl ⟨.added left mark right, rest, by simp [Phrase.tokens], not_or hclosed hjoins, by simp⟩
    · exact .inr ⟨_, _, rest, _, _, by simp, .inTerm left mark h⟩
  · exact .inr ⟨_, _, rest, _, _, hvalues, .inFirstTerm h⟩

theorem expression (shorter : SplitsBelow values) : Splits .expression values := by
  rcases sum shorter with ⟨left, rest, rfl, hclosed, hjoins⟩ | ⟨wanted, read, rest, _, _, hvalues, h⟩
  · by_cases hmarks : ∃ token, rest.head? = some token ∧ Tier.comparison.Marks token
    · obtain ⟨token, hhead, mark, rfl⟩ := hmarks
      obtain ⟨rest, rfl⟩ := List.head?_eq_some_iff.1 hhead
      rcases shorter .sum nofun rest (by simp; omega) with
        ⟨right, rest, rfl, hclosed, hjoins⟩ | ⟨wanted, read, rest, _, _, rfl, h⟩
      · exact .inl ⟨.compared left mark right, rest, by simp [Phrase.tokens], not_or hclosed hjoins,
          fun _ _ h => h⟩
      · exact .inr ⟨_, _, rest, _, _, by simp, .inRightSide left mark h⟩
    · refine .inl ⟨.ofSum left, rest, rfl, ?_, fun _ _ h => h⟩
      exact not_or hclosed (not_or hjoins fun token hhead h => hmarks ⟨token, hhead, h⟩)
  · exact .inr ⟨_, _, rest, _, _, hvalues, .inLeftSide h⟩

theorem arguments (shorter : SplitsBelow values) : Splits .arguments values := by
  rcases expression shorter with ⟨first, rest, hvalues, hclosed, -⟩ | ⟨wanted, read, rest, _, _, hvalues, h⟩
  · refine loop (fun left token rest hjoins hrest => ?_) (shorter .expression nofun) (.argument first) hvalues
      hclosed
    obtain rfl := hjoins
    rcases hrest with ⟨value, rest, rfl, hclosed, -⟩ | ⟨wanted, read, rest, _, _, rfl, h⟩
    · exact .inl ⟨.furtherArgument left value, rest, by simp [Phrase.tokens], hclosed, by simp⟩
    · exact .inr ⟨_, _, rest, _, _, by simp, .inArgument left h⟩
  · exact .inr ⟨_, _, rest, _, _, hvalues, .inFirstArgument h⟩

end Splits

/-- **Any tokens begin with a phrase of a category or get stuck in one.** -/
theorem splits {c : Category} (hc : c ≠ .atom) (values : List Token) : Splits c values := by
  induction hlength : values.length using Nat.strongRecOn generalizing c values
  rename_i ih
  have shorter : SplitsBelow values := fun c hc rest hlt => ih rest.length (hlength ▸ hlt) hc rest rfl
  cases c with
  | atom => exact absurd rfl hc
  | signed => exact .signed shorter
  | power => exact .power shorter
  | product => exact .product shorter
  | sum => exact .sum shorter
  | expression => exact .expression shorter
  | arguments => exact .arguments shorter

end FormulaCompiler
