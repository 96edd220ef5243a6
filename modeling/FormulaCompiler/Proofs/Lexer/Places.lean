import FormulaCompiler.Proofs.Lexer.Lines
import FormulaCompiler.Proofs.Lexer.Tokens
import FormulaCompiler.Proofs.Position

/-!
# Where the answers of a lexer stand

A lexer that has begun a token takes characters that are no blanks, so the token is as many columns wide as it
has characters, and the lexer is left where the token ends (`endsAt_of_run`). Together with what maximal munch
says of its value, this is all there is to know of an answer (`next?_lexeme`).
-/

namespace FormulaCompiler.Lexer

/-! ### Answers -/

/-- All answers of a lexer. -/
def items (l : Lexer) : List Lexed := l.answers.map Prod.fst

def placeOf : Lexed → Span
  | .ok token => token.span
  | .error error => error.span

def tokensOf (items : List Lexed) : List (Spanned Token) := items.filterMap Except.toOption

def errorsOf (items : List Lexed) : List (Spanned LexError) :=
  items.filterMap fun
    | .ok _ => none
    | .error error => some error

/-- Whether a token that began at `start` ends, or an error stands, at `stop`. -/
def EndsAt (source : String) (start stop : Position) : Lexed → Prop
  | .ok token => token.span = ⟨source, start, stop⟩
  | .error error => error.span = Span.single source stop

variable {source : String} {failure : Option AccessError} {mode next : Mode} {start last here : Position} {c : Char}
  {rest more : List Char} {answer : Lexed} {after : Lexer} {items : List Lexed}

theorem items_congr {l l' : Lexer} (h : l.next? = l'.next?) : l.items = l'.items :=
  congrArg (List.map Prod.fst) (answers_congr h)

theorem items_of_some {l : Lexer} (h : l.next? = (some answer, after)) : l.items = answer :: after.items := by
  rw [items, answers_of_some h]
  rfl

theorem items_of_none {l after : Lexer} (h : l.next? = (none, after)) : l.items = [] := by
  rw [items, answers_of_none h]
  rfl

theorem map_unplaced_items (l : Lexer) : l.items.map unplaced = results l := List.map_map

/-- Each answer to a source that can be read is scanned from one of its lines. -/
theorem exists_line_of_mem {s : Source} (hreadable : s.reading.failure = none) (hmem : answer ∈ (ofSource s).items) :
    ∃ line ∈ s.reading.lines, unplaced answer ∈ MaximalMunch.scanLine line.toList := by
  have hresult : unplaced answer ∈ (ofSource s).items.map unplaced := List.mem_map_of_mem hmem
  rw [map_unplaced_items, results_of_readable hreadable] at hresult
  exact List.mem_flatMap.1 hresult

theorem mem_tokensOf {token : Spanned Token} : token ∈ tokensOf items ↔ .ok token ∈ items := by
  rw [tokensOf, List.mem_filterMap]
  constructor
  · rintro ⟨item, hmem, htoken⟩
    cases item with
    | error error => cases htoken
    | ok answered =>
        cases htoken
        exact hmem
  · exact fun hmem => ⟨_, hmem, rfl⟩

theorem mem_errorsOf {error : Spanned LexError} : error ∈ errorsOf items ↔ .error error ∈ items := by
  rw [errorsOf, List.mem_filterMap]
  constructor
  · rintro ⟨item, hmem, herror⟩
    cases item with
    | ok token => cases herror
    | error answered =>
        cases herror
        exact hmem
  · exact fun hmem => ⟨_, hmem, rfl⟩

/-! ### Where answers stand -/

theorem notMem_blanks_of_isWordChar (h : isWordChar c = true) : c ∉ MaximalMunch.blanks := by
  intro hmem
  simp only [MaximalMunch.blanks, List.mem_cons, List.not_mem_nil, or_false] at hmem
  obtain rfl | rfl | rfl | rfl | rfl := hmem <;> cases h

/-- What is no blank neither ends a line nor widens it. -/
theorem ne_of_notMem_blanks (h : c ∉ MaximalMunch.blanks) : c ≠ '\r' ∧ c ≠ '\n' ∧ c ≠ '\t' := by
  refine ⟨?_, ?_, ?_⟩ <;> rintro rfl <;> exact h (by decide)

/-- A character that is no blank takes one column. -/
theorem after_of_notMem_blanks (h : c ∉ MaximalMunch.blanks) : here.after c = here.advance :=
  Position.after_of_ne (ne_of_notMem_blanks h).2.1 (ne_of_notMem_blanks h).2.2

theorem isWordChar_of_isDigit (h : c.isDigit = true) : isWordChar c = true := by
  rw [isWordChar, Char.isAlphanum, h, Bool.or_true, Bool.true_or]

theorem isWordChar_of_isAlpha (h : c.isAlpha = true) : isWordChar c = true := by
  rw [isWordChar, Char.isAlphanum, h, Bool.true_or, Bool.true_or]

/-- A token under way takes no blank, and only a slash may turn out to be no token. -/
theorem holdsToken_of_shift (hmode : mode.holdsToken = true) (hslash : mode = .slash → c ≠ '/')
    (h : mode.react (some c) = .shift next) : next.holdsToken = true ∧ next ≠ .slash ∧ c ∉ MaximalMunch.blanks := by
  cases mode with
  | between => cases hmode
  | skipping => cases hmode
  | comment => cases hmode
  | complete symbol => cases h
  | slash =>
      rw [Mode.react, if_neg fun heq => hslash rfl (Option.some.inj heq)] at h
      cases h
  | comparison alone paired =>
      rw [Mode.react] at h
      split at h <;> cases h
      rename_i heq
      cases heq
      exact ⟨rfl, Mode.noConfusion, by decide⟩
  | bang =>
      rw [Mode.react] at h
      split at h <;> cases h
      rename_i heq
      cases heq
      exact ⟨rfl, Mode.noConfusion, by decide⟩
  | whole digits =>
      rw [Mode.react] at h
      repeat' split at h
      · cases h
        exact ⟨rfl, Mode.noConfusion, notMem_blanks_of_isWordChar (isWordChar_of_isDigit ‹_›)⟩
      · rename_i hpoint
        cases h
        subst hpoint
        exact ⟨rfl, Mode.noConfusion, by decide⟩
      · exact absurd h (numberToken_ne_shift _ _)
  | fraction whole places =>
      rw [Mode.react] at h
      repeat' split at h
      · cases h
        exact ⟨rfl, Mode.noConfusion, notMem_blanks_of_isWordChar (isWordChar_of_isDigit ‹_›)⟩
      · cases h
      · exact absurd h (numberToken_ne_shift _ _)
  | word letters =>
      rw [Mode.react] at h
      split at h <;> cases h
      exact ⟨rfl, Mode.noConfusion, notMem_blanks_of_isWordChar ‹_›⟩

/-- A token under way takes characters that are no blanks, and the lexer stands behind them. -/
theorem endsAt_of_run (hmode : mode.holdsToken = true) (hslash : mode = .slash → rest.head? ≠ some '/')
    (hlast : last.advance = here) (h : run source failure mode start last rest here = (some answer, after)) :
    ∃ taken, rest = taken ++ after.stream.rest ∧ (∀ d ∈ taken, d ∉ MaximalMunch.blanks) ∧
      after.stream.here = here.right taken.length ∧ EndsAt source start after.stream.here answer := by
  induction rest generalizing mode last here with
  | nil =>
      unfold run at h
      split at h
      · cases h
        exact ⟨[], rfl, List.forall_mem_nil _, rfl, rfl⟩
      · split at h <;> cases h
        · exact ⟨[], rfl, List.forall_mem_nil _, rfl, congrArg (Span.mk source start) hlast⟩
        · exact ⟨[], rfl, List.forall_mem_nil _, rfl, rfl⟩
  | cons c rest ih =>
      rw [run] at h
      split at h
      · rename_i next hreact
        have hchar : mode = .slash → c ≠ '/' := fun hmode hc => hslash hmode (congrArg some hc)
        obtain ⟨hnext, hnoSlash, hblank⟩ := holdsToken_of_shift hmode hchar hreact
        have hbetween : mode ≠ .between := by
          rintro rfl
          cases hmode
        have hafter : here.after c = here.advance := after_of_notMem_blanks hblank
        rw [if_neg hbetween] at h
        obtain ⟨taken, htaken, hblanks, hhere, hends⟩ := ih hnext (fun hslash => absurd hslash hnoSlash) hafter.symm h
        refine ⟨c :: taken, congrArg (c :: ·) htaken, List.forall_mem_cons.2 ⟨hblank, hblanks⟩, ?_, hends⟩
        rw [hhere, hafter, List.length_cons, Position.right_succ]
      · cases h
        exact ⟨[], rfl, List.forall_mem_nil _, rfl, congrArg (Span.mk source start) hlast⟩
      · cases h
        exact ⟨[], rfl, List.forall_mem_nil _, rfl, rfl⟩
      · cases h

theorem holdsToken_of_first? (hblank : c ∉ MaximalMunch.blanks) (h : Mode.first? c = some mode) :
    mode.holdsToken = true ∧ (mode = .slash → c = '/') := by
  unfold Mode.first? at h
  repeat' split at h
  all_goals cases h
  all_goals first
    | exact ⟨rfl, fun _ => ‹_›⟩
    | exact ⟨rfl, Mode.noConfusion⟩
    | exact absurd (isBlank_iff.1 ‹_›) hblank

/-- A lexeme is taken from where it begins to where the lexer is left. -/
theorem next?_lexeme (source : String) (here : Position) (more : List Char) (hblank : c ∉ MaximalMunch.blanks)
    (hcomment : ¬ (c = '/' ∧ rest.head? = some '/')) :
    ∃ answer taken, (inFrontOf source (c :: (rest ++ '\n' :: more)) here false).next? =
        (some answer, inFrontOf source ((MaximalMunch.lexeme c rest).2 ++ '\n' :: more) (here.right taken.length)
          (skipsAfter (MaximalMunch.lexeme c rest).1)) ∧
      unplaced answer = (MaximalMunch.lexeme c rest).1 ∧ c :: rest = taken ++ (MaximalMunch.lexeme c rest).2 ∧
      (∀ d ∈ taken, d ∉ MaximalMunch.blanks) ∧ EndsAt source here (here.right taken.length) answer := by
  have hgives : Gives source (inFrontOf source (c :: (rest ++ '\n' :: more)) here false).next? _ _ :=
    gives_lexeme hblank hcomment
  obtain ⟨answer, there, hnext, hvalue⟩ := hgives
  have hrun : run source none .between here here (c :: (rest ++ '\n' :: more)) here = _ := hnext
  have htaken : ∃ taken, c :: (rest ++ '\n' :: more) = taken ++ ((MaximalMunch.lexeme c rest).2 ++ '\n' :: more) ∧
      (∀ d ∈ taken, d ∉ MaximalMunch.blanks) ∧ there = here.right taken.length ∧ EndsAt source here there answer := by
    rw [run, Mode.react] at hrun
    cases hfirst : Mode.first? c with
    | none =>
        rw [hfirst] at hrun
        obtain ⟨hanswer, hafter⟩ := Prod.mk.inj hrun
        cases hanswer
        have hstream := congrArg Lexer.stream hafter
        exact ⟨[], congrArg CharStream.rest hstream, List.forall_mem_nil _, (congrArg CharStream.here hstream).symm,
          congrArg (Span.single source) (congrArg CharStream.here hstream)⟩
    | some mode =>
        rw [hfirst] at hrun
        obtain ⟨hmode, hslash⟩ := holdsToken_of_first? hblank hfirst
        have hafter : here.after c = here.advance := after_of_notMem_blanks hblank
        have hsecond : mode = .slash → (rest ++ '\n' :: more).head? ≠ some '/' := by
          intro hmode hhead
          apply hcomment
          refine ⟨hslash hmode, ?_⟩
          cases rest with
          | nil => cases hhead
          | cons d rest => exact hhead
        obtain ⟨taken, htaken, hblanks, hthere, hends⟩ := endsAt_of_run hmode hsecond hafter.symm hrun
        refine ⟨c :: taken, congrArg (c :: ·) htaken, List.forall_mem_cons.2 ⟨hblank, hblanks⟩, ?_, hends⟩
        rw [List.length_cons, Position.right_succ, ← hafter]
        exact hthere
  obtain ⟨taken, htaken, hblanks, rfl, hends⟩ := htaken
  refine ⟨answer, taken, hnext, hvalue, ?_, hblanks, hends⟩
  rw [← List.append_assoc, ← List.cons_append] at htaken
  exact List.append_cancel_right htaken

end FormulaCompiler.Lexer
