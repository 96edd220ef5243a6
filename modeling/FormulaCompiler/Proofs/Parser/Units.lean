import FormulaCompiler.Proofs.Parser.Statements

/-!
# The parser reads units

Main statements: on the tokens of a sentence the parser comes to the tree of the sentence, or overruns a
limit if the sentence does (`readsUnit`); on tokens that get stuck it fails for that (`stopsUnit`). Together
they say what the parser does on any tokens, since any tokens are one or the other.
-/

namespace FormulaCompiler

/-- The names known to be constant after several statements. -/
def Statement.declareAll (constants : List Identifier) (statements : List Statement) : List Identifier :=
  statements.foldl Statement.declare constants

namespace Parser

variable {s t : State} {token : Spanned Token} {read rest : List (Spanned Token)}

/-- Whether all of several statements keep the limits, after some names have been declared constant. -/
def FitAll (constants : List Identifier) (statements : List Statement) : Prop :=
  (∀ statement ∈ statements, statement.nesting ≤ nestingLimit) ∧
    ∀ tree ∈ Statement.trees constants statements, tree.height ≤ heightLimit

theorem fitAll_cons {constants : List Identifier} {statement : Statement} {statements : List Statement} :
    FitAll constants (statement :: statements) ↔
      (statement.nesting ≤ nestingLimit ∧ (statement.tree constants).height ≤ heightLimit) ∧
        FitAll (statement.declare constants) statements := by
  simp only [FitAll, Statement.trees, List.forall_mem_cons]
  grind

/-- What is left to do after all statements of a unit. -/
def sequence : List Node → Rule Node
  | [only] => return only
  | statements => operation .sequence statements

/-- What is left to do after the first statement of a unit. -/
def unitRest (first : Node) : Rule Node := do
  moreStatements (← tokensLeft) [first] >>= sequence

theorem unit_eq : unit = statement >>= unitRest := rfl

/-! ### One round of the loop over statements -/

section

variable {fits : Prop} {node : Node} {failure : Failure} (rounds : List (Spanned Token)) (reversed : List Node)

theorem Runs.nextStatement (round : Spanned Token) (h : s.tokens = token :: rest)
    (htoken : token.value = .symbol .semicolon) (hrest : rest ≠ [])
    (hstatement : Runs statement (s.past [token] rest) fits (pure node) t) :
    Runs (moreStatements (round :: rounds) reversed) s fits (moreStatements rounds (node :: reversed)) t := by
  obtain ⟨second, rest, rfl⟩ := List.exists_cons_of_ne_nil hrest
  refine (Leads.peek_some h _).runs ?_
  rw [htoken]
  refine (Leads.next h _).runs ((Leads.peek_some rfl _).runs ?_)
  exact (hstatement.andThen .refl).congr (by simp)

theorem Stops.nextStatement (round : Spanned Token) (h : s.tokens = token :: rest)
    (htoken : token.value = .symbol .semicolon) (hrest : rest ≠ [])
    (hstatement : Stops statement (s.past [token] rest) fits failure) :
    Stops (moreStatements (round :: rounds) reversed) s fits failure := by
  obtain ⟨second, rest, rfl⟩ := List.exists_cons_of_ne_nil hrest
  refine (Leads.peek_some h _).stops ?_
  rw [htoken]
  refine (Leads.next h _).stops ((Leads.peek_some rfl _).stops ?_)
  exact hstatement.bind _

theorem Leads.noStatement (h : s.tokens = []) :
    Leads (moreStatements rounds reversed) s (pure reversed.reverse) s := by
  cases rounds with
  | nil => exact .refl
  | cons round rounds =>
      refine (Leads.peek _).trans ?_
      rw [h]
      exact .refl

theorem Leads.lastSemicolon (round : Spanned Token) (h : s.tokens = [token])
    (htoken : token.value = .symbol .semicolon) :
    Leads (moreStatements (round :: rounds) reversed) s (pure reversed.reverse) (s.past [token] []) := by
  refine (Leads.peek_some h _).trans ?_
  rw [htoken]
  exact (Leads.next h _).trans ((Leads.peek _).trans .refl)

theorem Stops.noSeparator (round : Spanned Token) (h : s.tokens = token :: rest)
    (htoken : token.value ≠ .symbol .semicolon) :
    Stops (moreStatements (round :: rounds) reversed) s True ⟨⟨.expectedSeparator, token.span⟩, false⟩ := by
  refine (Leads.peek_some h _).stops ?_
  split
  · rename_i hnone
    exact absurd hnone (by simp)
  · rename_i hsemicolon
    exact absurd (Option.some.inj hsemicolon) htoken
  · refine (Leads.next h _).stops ?_
    exact Fails.stops fun log => ⟨_, _, rfl, rfl⟩

end

/-! ### Complete units -/

/-- **The parser reads statement after statement.** The last one has to end where it does; a semicolon ends
the others. -/
theorem readsStatements {others : List Statement} {values : List Token} (rounds : List (Spanned Token))
    (reversed : List Node)
    (hvalues : values = others.flatMap fun statement => .symbol .semicolon :: statement.tokens)
    (hfront : InFrontOf values nestingLimit s read rest)
    (hclosed : ∀ last ∈ others.getLast?, last.Closed (valuesOf rest))
    (hrounds : s.tokens.length ≤ rounds.length) :
    ∃ rounds', rest.length ≤ rounds'.length ∧
      Runs (moreStatements rounds reversed) s (FitAll s.constants others)
        (moreStatements rounds' ((Statement.trees s.constants others).reverse ++ reversed))
        ((s.past read rest).knowing (Statement.declareAll s.constants others)) := by
  induction others generalizing s values read rounds reversed with
  | nil =>
      subst hvalues
      obtain rfl := hfront.nil
      have hstate : s.past [] rest = s := State.past_nil hfront.tokens_eq
      rw [hstate]
      refine ⟨rounds, by simpa [hfront.tokens_eq] using hrounds, Runs.refl.congr ?_⟩
      simp [FitAll, Statement.trees]
  | cons statement others ih =>
      subst hvalues
      obtain ⟨semicolon, after, rfl, hsemicolon, -, htokens, hfront⟩ := hfront.cons
      obtain ⟨readFirst, after, rfl, hfirst, hfront⟩ := hfront.append
      have hclosedFirst : statement.Closed (valuesOf (after ++ rest)) := by
        rw [valuesOf_append, hfront.values_eq]
        cases others with
        | nil => exact hclosed statement rfl
        | cons second others => exact Statement.closed_semicolon _
      have hne : readFirst ≠ [] := by
        rintro rfl
        exact Statement.tokens_ne_nil hfirst.values_eq.symm
      have hstatement := readsStatement hfirst hclosedFirst
      cases rounds with
      | nil => simp [htokens] at hrounds
      | cons round rounds =>
          have hround := Runs.nextStatement rounds reversed round htokens hsemicolon (by simp [hne]) hstatement
          obtain ⟨rounds', hrounds', hothers⟩ := ih rounds (statement.tree s.constants :: reversed) rfl
            (hfront.knowing (statement.declare s.constants))
            (fun last hmem => hclosed last (by cases others <;> simp_all)) (by simp [htokens] at hrounds ⊢; omega)
          refine ⟨rounds', hrounds', ?_⟩
          simp only [Statement.trees, List.reverse_cons, List.append_assoc, List.singleton_append]
          refine ((hround.trans hothers).congr ?_).moved ?_
          · simp [fitAll_cons]
          · simp [Statement.declareAll]

/-- The beginning of a unit, up to the end of some statement. -/
theorem readsSeries {first : Statement} {others : List Statement}
    (hfront : InFrontOf (seriesTokens first others) nestingLimit s read rest)
    (hclosed : ∀ last ∈ (first :: others).getLast?, last.Closed (valuesOf rest)) :
    ∃ rounds, rest.length ≤ rounds.length ∧
      Runs unit s (FitAll s.constants (first :: others))
        (moreStatements rounds (Statement.trees s.constants (first :: others)).reverse >>= sequence)
        ((s.past read rest).knowing (Statement.declareAll s.constants (first :: others))) := by
  obtain ⟨readFirst, after, rfl, hfirst, hfront⟩ := hfront.append
  have hclosedFirst : first.Closed (valuesOf (after ++ rest)) := by
    rw [valuesOf_append, hfront.values_eq]
    cases others with
    | nil => exact hclosed first rfl
    | cons second others => exact Statement.closed_semicolon _
  have hstatement := readsStatement hfirst hclosedFirst
  obtain ⟨rounds, hrounds, hothers⟩ := readsStatements (after ++ rest) [first.tree s.constants] rfl
    (hfront.knowing (first.declare s.constants))
    (fun last hmem => hclosed last (by cases others <;> simp_all)) (Nat.le_refl _)
  refine ⟨rounds, hrounds, ?_⟩
  rw [unit_eq]
  have hunit := hstatement.andThen (f := unitRest)
    ((Leads.tokensLeft _).runs (hothers.bind sequence))
  simp only [Statement.trees, List.reverse_cons]
  refine (hunit.congr ?_).moved ?_
  · simp [fitAll_cons]
  · simp [Statement.declareAll]

private theorem foldr_max_le {numbers : List Nat} {bound : Nat} :
    numbers.foldr max 0 ≤ bound ↔ ∀ number ∈ numbers, number ≤ bound := by
  induction numbers with
  | nil => simp
  | cons number numbers ih => rw [List.foldr_cons, Nat.max_le, ih, List.forall_mem_cons]

/-- Once all statements have been read, their trees are put in sequence. -/
theorem Runs.sequence (sentence : Sentence) (s : State) :
    Runs (sequence (Statement.trees [] (sentence.first :: sentence.others))) s
      (sentence.others = [] ∨ sentence.tree.height ≤ heightLimit) (pure sentence.tree) s := by
  obtain ⟨first, others, trailing⟩ := sentence
  cases others with
  | nil => exact Runs.refl.congr (by simp)
  | cons second others =>
      refine (Runs.operation ..).congr ?_
      simp only [reduceCtorEq, false_or]
      exact Iff.rfl

private theorem fits_iff (sentence : Sentence) :
    (FitAll [] (sentence.first :: sentence.others) ∧
      (sentence.others = [] ∨ sentence.tree.height ≤ heightLimit)) ↔
      sentence.nesting ≤ nestingLimit ∧ sentence.tree.height ≤ heightLimit := by
  have hnesting : sentence.nesting ≤ nestingLimit ↔
      ∀ statement ∈ sentence.first :: sentence.others, statement.nesting ≤ nestingLimit := by
    rw [Sentence.nesting, foldr_max_le, List.forall_mem_map]
  rw [FitAll, hnesting, and_assoc, and_congr_right_iff]
  intro _
  obtain ⟨first, others, trailing⟩ := sentence
  cases others with
  | nil => simp [Sentence.tree, Statement.trees]
  | cons second others =>
      have hheight : (Sentence.tree ⟨first, second :: others, trailing⟩).height =
          1 + ((Statement.trees [] (first :: second :: others)).map Node.height).foldr max 0 := rfl
      simp only [reduceCtorEq, false_or, and_iff_right_iff_imp]
      rw [hheight]
      intro hle tree hmem
      have := foldr_max_le.1 (Nat.le_refl _) tree.height (List.mem_map_of_mem hmem)
      omega

/-- **The parser reads every sentence.** -/
theorem readsUnit {sentence : Sentence} (hfront : InFrontOf sentence.tokens nestingLimit s read [])
    (hconstants : s.constants = []) :
    ∃ t, Runs unit s (sentence.nesting ≤ nestingLimit ∧ sentence.tree.height ≤ heightLimit)
      (pure sentence.tree) t := by
  obtain ⟨readSeries, after, rfl, hseries, hfront⟩ := hfront.append
  rw [List.append_nil] at hseries
  have hclosed : ∀ last ∈ (sentence.first :: sentence.others).getLast?, last.Closed (valuesOf after) := by
    intro last _
    rw [hfront.values_eq]
    split
    · exact last.closed_semicolon []
    · exact Statement.closed_nil
  obtain ⟨rounds, hrounds, hruns⟩ := readsSeries hseries hclosed
  rw [hconstants] at hruns
  -- Whether or not a semicolon is left, the loop ends here.
  have hend : ∃ t, Leads (moreStatements rounds (Statement.trees [] (sentence.first :: sentence.others)).reverse)
      ((s.past readSeries after).knowing (Statement.declareAll [] (sentence.first :: sentence.others)))
      (pure (Statement.trees [] (sentence.first :: sentence.others)).reverse.reverse) t := by
    cases htrailing : sentence.trailing with
    | false =>
        rw [htrailing] at hfront
        obtain rfl := hfront.nil
        exact ⟨_, .noStatement _ _ rfl⟩
    | true =>
        rw [htrailing] at hfront
        obtain ⟨semicolon, after, rfl, hsemicolon, -, -, hfront⟩ := hfront.cons
        obtain rfl := hfront.nil
        cases rounds with
        | nil => simp at hrounds
        | cons round rounds => exact ⟨_, .lastSemicolon _ _ round rfl hsemicolon⟩
  obtain ⟨t, hend⟩ := hend
  rw [List.reverse_reverse] at hend
  exact ⟨t, (hruns.trans ((hend.runs .refl).andThen (.sequence sentence t))).congr (by simp [← fits_iff])⟩

/-- **Where some tokens get stuck, the parser stops.** -/
theorem stopsUnit {next : Option Token} {wanted : Wanted} {values : List Token}
    (h : UnitStuck next wanted values) :
    ∃ fits : Prop, ∀ {s : State} {read rest : List (Spanned Token)},
      InFrontOf values nestingLimit s read rest → (valuesOf rest).head? = next → s.constants = [] →
        ∃ failure, failure.error = (lacking wanted s read rest).error ∧ Stops unit s fits failure := by
  cases h with
  | inFirst h =>
      obtain ⟨fits, hstops⟩ := stopsStatement h
      refine ⟨fits, fun hfront hrest _ => ?_⟩
      obtain ⟨failure, herror, hstops⟩ := hstops hfront hrest
      exact ⟨failure, herror, hstops.bind unitRest⟩
  | inFurther first others h hread =>
      obtain ⟨fits, hstops⟩ := stopsStatement h
      refine ⟨FitAll [] (first :: others) ∧ fits, fun {s read rest} hfront hrest hconstants => ?_⟩
      obtain ⟨readSeries, after, rfl, hseries, hfront⟩ := hfront.append
      obtain ⟨semicolon, readLast, rfl, hsemicolon, -, htokens, hfront⟩ := hfront.cons
      obtain ⟨rounds, hrounds, hruns⟩ := readsSeries hseries
        (by simpa [hsemicolon] using fun last _ => last.closed_semicolon _)
      obtain ⟨failure, herror, hlast⟩ := hstops
        (hfront.knowing (Statement.declareAll s.constants (first :: others))) hrest
      cases rounds with
      | nil => simp at hrounds
      | cons round rounds =>
          have hne : readLast ++ rest ≠ [] := by
            intro hempty
            obtain ⟨rfl, rfl⟩ := List.append_eq_nil_iff.1 hempty
            exact hread hfront.values_eq.symm hrest.symm
          have hloop := Stops.nextStatement
            (s := (s.past readSeries (semicolon :: readLast ++ rest)).knowing
              (Statement.declareAll s.constants (first :: others)))
            rounds (Statement.trees s.constants (first :: others)).reverse round rfl hsemicolon hne hlast
          refine ⟨failure, herror.trans (by simp [lacking]), ?_⟩
          rw [← hconstants]
          exact hruns.stops (hloop.bind sequence)
  | afterStatement first others hnext hsemicolon hclosed =>
      refine ⟨FitAll [] (first :: others), fun {s read rest} hfront hrest hconstants => ?_⟩
      subst hrest
      obtain ⟨token, rest, rfl, rfl⟩ := exists_of_head?_valuesOf hnext
      obtain ⟨rounds, hrounds, hruns⟩ := readsSeries hfront hclosed
      cases rounds with
      | nil => simp at hrounds
      | cons round rounds =>
          have hsemicolon : token.value ≠ .symbol .semicolon := hsemicolon
          have hloop := Stops.noSeparator
            (s := (s.past read (token :: rest)).knowing (Statement.declareAll s.constants (first :: others)))
            rounds (Statement.trees s.constants (first :: others)).reverse round rfl hsemicolon
          refine ⟨⟨⟨.expectedSeparator, token.span⟩, false⟩, rfl, ?_⟩
          rw [← hconstants]
          exact (hruns.stops (hloop.bind sequence)).congr (by simp)

end Parser

end FormulaCompiler
