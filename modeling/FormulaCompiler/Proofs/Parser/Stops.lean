import FormulaCompiler.Proofs.Grammar.Stuck
import FormulaCompiler.Proofs.Parser.Reads

/-!
# The parser stops where phrases get stuck

Main statement: where some tokens get stuck in a phrase, the rule of its category fails, at the token on
which they do or, if there is none, at the last one (`stops`). The failure can be recovered from only if
that token is the first.
-/

namespace FormulaCompiler.Parser

variable {s : State} {token : Spanned Token} {rest : List (Spanned Token)}

/-- The place of the next token or, at the end, of the last one read. -/
def blamed (lastRead : Span) : (rest : List (Spanned Token)) → Span
  | [] => lastRead
  | token :: _ => token.span

/-- The failure of a rule that has read some tokens and does not find what is wanted next. -/
def lacking (wanted : Wanted) (s : State) (read rest : List (Spanned Token)) : Failure where
  error := ⟨wanted.error (valuesOf rest).head?, blamed (s.past read rest).lastRead rest⟩
  recoverable := read.isEmpty && !rest.isEmpty

section

variable {wanted : Wanted} {before read : List (Spanned Token)} (left : List (Spanned Token))

/-- A failure for good is the same after some tokens as from in front of them. -/
theorem lacking_committed (hbefore : before ≠ []) :
    { lacking wanted (s.past before left) read rest with recoverable := false } =
      lacking wanted s (before ++ read) rest := by
  simp [lacking, hbefore]

theorem lacking_recoverable (hread : read = [] → rest = []) :
    (lacking wanted s read rest).recoverable = false := by
  cases read with
  | nil => simp [lacking, hread rfl]
  | cons token read => rfl

theorem lacking_past (hbefore : before ≠ []) (hread : read = [] → rest = []) :
    lacking wanted (s.past before left) read rest = lacking wanted s (before ++ read) rest := by
  have hfinal : (lacking wanted (s.past before left) read rest).recoverable = false :=
    lacking_recoverable hread
  rw [← lacking_committed left hbefore, ← hfinal]

end

theorem InFrontOf.rest_eq_nil {values : List Token} {levels : Nat} {read : List (Spanned Token)}
    {next : Option Token} (h : InFrontOf values levels s read rest) (hrest : (valuesOf rest).head? = next)
    (hnext : values = [] → next = none) (hread : read = []) : rest = [] := by
  have hvalues := h.values_eq
  rw [hread, valuesOf_nil] at hvalues
  simpa [hnext hvalues.symm] using hrest

/-- Where some tokens get stuck, the rule of the category fails for that. An argument list that gets stuck
on its first token is taken for an empty one. -/
def Halts (next : Option Token) (wanted : Wanted) (c : Category) (values : List Token)
    (nesting height : Nat) : Prop :=
  ∀ {levels : Nat} {s : State} {read rest : List (Spanned Token)},
    InFrontOf values levels s read rest → (valuesOf rest).head? = next →
      (c = .arguments → values = [] → next = none) →
        Stops (ruleOf c (innerRules levels)) s (nesting ≤ levels ∧ height ≤ heightLimit)
          (lacking wanted s read rest)

theorem Stops.expect {symbol : Symbol} (s : State) (read : List (Spanned Token)) (hread : read ≠ [])
    (hnext : (valuesOf rest).head? ≠ some (.symbol symbol)) :
    Stops (expect (.symbol symbol)) (s.past read rest) True (lacking (.symbol symbol) s read rest) := by
  have hempty : read.isEmpty = false := by simpa using hread
  cases rest with
  | nil =>
      refine ((Fails.expect_end rfl).mono ?_).stops
      rintro _ rfl
      simp [lacking, Wanted.error, blamed]
  | cons token rest =>
      refine ((Fails.expect rfl ?_).mono ?_).stops
      · simpa using hnext
      · rintro _ rfl
        simp [lacking, Wanted.error, blamed, hempty]

namespace Halts

variable {next : Option Token} {wanted : Wanted} {c : Category} {values : List Token}
  {nesting height levels : Nat} {read : List (Spanned Token)}

/-- One level deeper, the tokens read count one more level. -/
theorem deeper (h : Halts next wanted c values nesting height) (rule : Inner → Rule c.Value)
    {failure : Failure}
    (hrule : ∀ {k : Nat} {fits : Prop},
      Stops (ruleOf c (innerRules k)) s.deeper fits (lacking wanted s read rest) →
        Stops (rule (innerRules (k + 1))) s.deeper fits failure)
    (hfront : InFrontOf values levels s read rest) (hnext : (valuesOf rest).head? = next)
    (harguments : c = .arguments → values = [] → next = none) :
    Stops (Parser.deeper (rule (innerRules levels))) s (nesting + 1 ≤ levels ∧ height ≤ heightLimit)
      failure := by
  cases levels with
  | zero => exact ⟨fun hfits => by omega, fun _ => .deeper hfront.depth_add _⟩
  | succ k =>
      have hdepth : s.depth < nestingLimit := by have := hfront.depth_add; omega
      exact (Stops.deeper hdepth (hrule (h hfront.deeper hnext harguments))).congr (by omega)

end Halts

/-- One more operand of a chain, which gets stuck. -/
private theorem chainStops {rule operand : Rule Node} {operator? : Token → Option Operator}
    {operator : Operator} {left : Node} {fits fits' : Prop} {wanted : Wanted}
    {before after read : List (Spanned Token)}
    (hleft : ∃ rounds, (token :: after).length ≤ rounds.length ∧
      Runs rule s fits (moreOperands operator? operand rounds left) (s.past before (token :: after)))
    (hoperator : operator? token.value = some operator)
    (hright : Stops operand ((s.past before (token :: after)).past [token] after) fits'
      (lacking wanted ((s.past before (token :: after)).past [token] after) read rest)) :
    Stops rule s (fits ∧ fits') (lacking wanted s (before ++ token :: read) rest) := by
  obtain ⟨rounds, hrounds, hleft⟩ := hleft
  cases rounds with
  | nil => simp at hrounds
  | cons round rounds =>
      have hstops := hleft.stops (.nextOperand round rfl hoperator hright)
      rwa [State.past_past, lacking_committed _ (by simp), List.append_assoc] at hstops

/-- **Where some tokens get stuck, the rule of the category stops.** -/
theorem stops {next : Option Token} {wanted : Wanted} {c : Category} {values : List Token}
    {nesting height : Nat} (h : Stuck next wanted c values nesting height) :
    Halts next wanted c values nesting height := by
  induction h with
  | nothing hnext =>
      intro levels s read rest hfront hrest _
      obtain rfl := hfront.nil
      have htokens := hfront.tokens_eq
      cases rest with
      | nil =>
          refine (((Fails.next htokens).bind _).mono ?_).stops.congr (by simp)
          rintro _ rfl
          rfl
      | cons token rest =>
          have hstart : ¬ token.value.StartsPhrase := hnext _ (by simpa using hrest.symm)
          refine ((Fails.noPhrase (c := .atom) (by simp) htokens hstart).mono ?_).stops.congr (by simp)
          rintro _ rfl
          rfl
  | inArguments callee _ hread ih =>
      intro levels s read rest hfront hrest _
      obtain ⟨token, after, rfl, htoken, hnamed, htokens, hfront⟩ := hfront.cons
      obtain ⟨openParen, inside, rfl, hopen, -, -, hfront⟩ := hfront.cons
      have hempty := hfront.rest_eq_nil hrest hread
      have harguments := ih.deeper (fun inner => commaList inner.expression) id hfront hrest (fun _ => hread)
      rw [State.past_past, lacking_past _ (by simp) hempty] at harguments
      exact (Leads.callee htokens htoken hnamed hopen).stops (harguments.bind (callEnd callee))
  | afterOpenParen callee hnext hstart hclose =>
      intro levels s read rest hfront hrest _
      obtain ⟨token, after, rfl, htoken, hnamed, htokens, hfront⟩ := hfront.cons
      obtain ⟨openParen, after, rfl, hopen, -, -, hfront⟩ := hfront.cons
      obtain rfl := hfront.nil
      rw [hnext] at hrest
      obtain ⟨found, rest, rfl, rfl⟩ := exists_of_head?_valuesOf hrest
      have harguments := Runs.noArguments hfront.depth_add hfront.tokens_eq hstart
      have hend := harguments.andStops (f := callEnd callee)
        ((Stops.expect s [token, openParen] (by simp) (by simpa using hclose)).bind _)
      refine (Leads.callee htokens htoken hnamed hopen).stops ?_
      exact hend.congr (by simp)
  | afterArguments callee arguments hclosed hcomma hclose =>
      intro levels s read rest hfront hrest _
      obtain ⟨token, after, rfl, htoken, hnamed, htokens, hfront⟩ := hfront.cons
      obtain ⟨openParen, inside, rfl, hopen, -, -, hfront⟩ := hfront.cons
      subst hrest
      have harguments := Reads.deeper (reads arguments) (fun inner => commaList inner.expression) id hfront hclosed
        (by rintro _ hhead rfl; exact hcomma hhead)
      rw [State.past_past, State.past_past] at harguments
      have hend := harguments.andStops (f := callEnd callee) ((Stops.expect s _ (by simp) hclose).bind _)
      exact (Leads.callee htokens htoken hnamed hopen).stops (hend.congr (by simp))
  | inEnclosed _ ih =>
      intro levels s read rest hfront hrest _
      obtain ⟨openParen, inside, rfl, hopen, -, htokens, hfront⟩ := hfront.cons
      have hinner := ih.deeper (fun inner => committed inner.expression) Stops.committed hfront hrest (by simp)
      exact (Leads.openParen htokens hopen).stops (hinner.bind enclosedEnd)
  | afterEnclosed inner hclosed hclose =>
      intro levels s read rest hfront hrest _
      obtain ⟨openParen, inside, rfl, hopen, -, htokens, hfront⟩ := hfront.cons
      subst hrest
      have hinner := Reads.deeper (reads inner) (fun inner => committed inner.expression) Runs.committed hfront
        hclosed (by simp [Category.Joins])
      rw [State.past_past] at hinner
      have hend := hinner.andStops (f := enclosedEnd) ((Stops.expect s _ (by simp) hclose).bind _)
      exact (Leads.openParen htokens hopen).stops (hend.congr (by simp))
  | inAtom hatom ih =>
      intro levels s read rest hfront hrest _
      refine (Leads.unsigned ?_).stops (ih hfront hrest (by simp))
      rw [hfront.tokens_eq, valuesOf_append, hfront.values_eq]
      exact hatom.head?_ne_minus hrest
  | inNegated _ ih =>
      intro levels s read rest hfront hrest _
      obtain ⟨minus, after, rfl, hminus, -, htokens, hfront⟩ := hfront.cons
      have hoperand := ih.deeper (fun inner => committed inner.signed) Stops.committed hfront hrest (by simp)
      exact (Leads.minus htokens hminus).stops (hoperand.bind _)
  | inBase _ ih =>
      intro levels s read rest hfront hrest _
      exact (ih hfront hrest (by simp)).bind (powerRest (innerRules levels))
  | inExponent base _ ih =>
      intro levels s read rest hfront hrest _
      obtain ⟨readBase, after, rfl, hbaseFront, hfront⟩ := hfront.append
      obtain ⟨caret, readExponent, rfl, hcaret, -, htokens, hfront⟩ := hfront.cons
      have hbase := Reads.complete (reads base) hbaseFront
        (by simpa [hcaret] using base.closed_symbol (by decide) _) (by simp [Category.Joins])
      have hexponent := ih.deeper (fun inner => committed inner.power) Stops.committed hfront hrest (by simp)
      have hpower := hbase.andStops (f := powerRest (innerRules levels))
        ((Leads.caret htokens hcaret).stops (hexponent.bind _))
      rw [State.past_past, lacking_committed _ (by simp), List.append_assoc] at hpower
      refine hpower.congr ?_
      omega
  | inFirstFactor _ ih =>
      intro levels s read rest hfront hrest _
      exact (ih hfront hrest (by simp)).bind (operandsRest productOperator? (power (innerRules levels)))
  | inFactor left mark _ ih =>
      intro levels s read rest hfront hrest _
      obtain ⟨readLeft, after, rfl, hleftFront, hfront⟩ := hfront.append
      obtain ⟨token, readRight, rfl, htoken, -, htokens, hfront⟩ := hfront.cons
      have hleft := reads left hleftFront
        (by simpa [htoken] using left.closed_symbol (by cases mark <;> decide) _)
      have hright := ih hfront hrest (by simp)
      refine (chainStops hleft (htoken ▸ productOperator?_symbol mark) hright).congr ?_
      omega
  | inFirstTerm _ ih =>
      intro levels s read rest hfront hrest _
      exact (ih hfront hrest (by simp)).bind (operandsRest sumOperator? (product (innerRules levels)))
  | inTerm left mark _ ih =>
      intro levels s read rest hfront hrest _
      obtain ⟨readLeft, after, rfl, hleftFront, hfront⟩ := hfront.append
      obtain ⟨token, readRight, rfl, htoken, -, htokens, hfront⟩ := hfront.cons
      have hleft := reads left hleftFront
        (by simpa [htoken] using left.closed_symbol (by cases mark <;> decide) _)
      have hright := ih hfront hrest (by simp)
      refine (chainStops hleft (htoken ▸ sumOperator?_symbol mark) hright).congr ?_
      omega
  | inLeftSide _ ih =>
      intro levels s read rest hfront hrest _
      exact (ih hfront hrest (by simp)).bind (expressionRest (innerRules levels))
  | inRightSide left mark _ ih =>
      intro levels s read rest hfront hrest _
      obtain ⟨readLeft, after, rfl, hleftFront, hfront⟩ := hfront.append
      obtain ⟨token, readRight, rfl, htoken, -, htokens, hfront⟩ := hfront.cons
      have hleft := Reads.complete (reads left) hleftFront
        (by simpa [htoken] using left.closed_symbol (by cases mark <;> decide) _)
        (by simpa [htoken, Category.Joins] using mark.not_marks_sum)
      have hright := (ih hfront hrest (by simp)).committed
      have hexpression := hleft.andStops (f := expressionRest (innerRules levels))
        ((Leads.comparison htokens htoken).stops (hright.bind _))
      rw [State.past_past, lacking_committed _ (by simp), List.append_assoc] at hexpression
      refine hexpression.congr ?_
      omega
  | inFirstArgument _ ih =>
      intro levels s read rest hfront hrest harguments
      have hempty := hfront.rest_eq_nil hrest (harguments rfl)
      have hfirst := (ih hfront hrest (by simp)).optional (lacking_recoverable hempty)
      exact hfirst.bind (itemsRest (expression (innerRules levels)))
  | inArgument before _ ih =>
      intro levels s read rest hfront hrest _
      obtain ⟨readBefore, after, rfl, hbeforeFront, hfront⟩ := hfront.append
      obtain ⟨token, readValue, rfl, htoken, -, htokens, hfront⟩ := hfront.cons
      obtain ⟨rounds, hrounds, hbefore⟩ := reads before hbeforeFront
        (by simpa [htoken] using before.closed_symbol (by decide) _)
      have hvalue := ih hfront hrest (by simp)
      cases rounds with
      | nil => simp at hrounds
      | cons round rounds =>
          have hstops := hbefore.stops (.nextItem round htokens htoken hvalue)
          rw [State.past_past, lacking_committed _ (by simp), List.append_assoc] at hstops
          refine hstops.congr ?_
          omega

end FormulaCompiler.Parser
