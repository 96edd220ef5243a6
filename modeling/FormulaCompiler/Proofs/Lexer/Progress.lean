import FormulaCompiler.Proofs.Lexer.Failure
import Mathlib.Logic.Function.Iterate

/-!
# Calls of a lexer

How often a lexer can still answer is bounded by the characters left (`Mode.budget`): a token has taken a character, and
where an error stands, the next call takes the character there before it answers. Main statement: a lexer answers no more
often than there are characters, and once more for an unreadable line; then it answers none for good, and no token is
under way where the input ends (`answers_end`).
-/

namespace FormulaCompiler.Lexer

/-- Whether an answer reports an unreadable line. -/
def IsReadError (answer : Lexed) : Prop := ∃ error place, answer = .error ⟨.input error, place⟩

/-- The characters that are taken from a mode on lead to another mode. -/
inductive Mode.Takes : Mode → List Char → Mode → Prop where
  | nothing (mode : Mode) : Takes mode [] mode
  | shift {mode next final : Mode} {c : Char} {rest : List Char} (h : mode.react (some c) = .shift next)
      (hrest : Takes next rest final) : Takes mode (c :: rest) final

/-- How many answers there can still be in front of the end of the characters left. -/
def Mode.budget (mode : Mode) (rest : List Char) : Nat :=
  (if mode = .skipping then rest.length - 1 else rest.length) + (if mode.holdsToken then 1 else 0)

/-- The mode that a lexer goes on in. -/
def mode (l : Lexer) : Mode := if l.skipping then .skipping else .between

/-- The lexer after some calls. -/
def after (l : Lexer) (count : Nat) : Lexer := Nat.iterate (fun l => l.next?.2) count l

/-- What the call after some others is answered. -/
def answerAt (l : Lexer) (count : Nat) : Option Lexed := (l.after count).next?.1

/-- Whether all the characters left are taken by the next call, which then is in some mode where the input ends or cannot
be read on. -/
def ReachesEnd (l : Lexer) (final : Mode) : Prop := l.mode.Takes l.stream.rest final

/-- Whether nothing is left, not even an error. -/
def Done (l : Lexer) : Prop := l.stream.rest = [] ∧ l.stream.failure = none

/-- How many answers there can still be. -/
def toCome (l : Lexer) : Nat := l.mode.budget l.stream.rest + (if l.stream.failure.isSome then 1 else 0)

variable {source : String} {failure : Option AccessError} {mode next final : Mode} {start last here : Position} {c : Char}
  {rest : List Char} {result : Option Lexed × Lexer} {l : Lexer}

/-! ### One character -/

theorem Mode.budget_of_shift (h : mode.react (some c) = .shift next) : next.budget rest ≤ mode.budget (c :: rest) := by
  by_cases hmode : mode = .skipping
  · subst hmode
    cases h
    rw [budget, budget, if_pos rfl]
    split <;> simp [holdsToken]
  · have hnext : (if next.holdsToken then 1 else 0) ≤ 1 := by split <;> omega
    rw [budget, budget, if_neg hmode, List.length_cons]
    split <;> omega

theorem Mode.budget_of_accept {token : Token} (h : mode.react (some c) = .accept token) :
    Mode.between.budget (c :: rest) + 1 ≤ mode.budget (c :: rest) := by
  have hskipping : mode ≠ .skipping := by
    rintro rfl
    cases h
  rw [Mode.budget, Mode.budget, if_neg hskipping, if_pos (holdsToken_of_react_accept h), if_neg Mode.noConfusion]
  exact Nat.le_refl _

theorem Mode.budget_of_reject {error : LexError} (h : mode.react (some c) = .reject error) :
    Mode.skipping.budget (c :: rest) + 1 ≤ mode.budget (c :: rest) := by
  have hskipping : mode ≠ .skipping := by
    rintro rfl
    cases h
  rw [Mode.budget, Mode.budget, if_neg hskipping, if_pos rfl]
  exact Nat.le_add_right _ _

theorem numberToken_ne_input (whole fraction : String) (error : AccessError) :
    numberToken whole fraction ≠ .reject (.input error) := by
  rw [numberToken]
  generalize (Decimal.ofDigits whole.toList fraction.toList).toBinary64? = value
  cases value <;> simp [numberReaction]

/-- No character makes an unreadable line. -/
theorem react_ne_input (mode : Mode) (c : Char) (error : AccessError) :
    mode.react (some c) ≠ .reject (.input error) := by
  cases mode with
  | whole digits =>
      rw [Mode.react]
      repeat' split
      all_goals first | exact Reaction.noConfusion | exact numberToken_ne_input _ _ error
  | fraction whole places =>
      rw [Mode.react]
      repeat' split
      all_goals first | exact Reaction.noConfusion | exact numberToken_ne_input _ _ error | simp
  | complete symbol => exact Reaction.noConfusion
  | skipping => exact Reaction.noConfusion
  | comment => exact Reaction.noConfusion
  | _ =>
      rw [Mode.react]
      split <;> simp

theorem Mode.Takes.eq_of_nil (h : mode.Takes [] final) : final = mode := by
  cases h
  rfl

theorem Mode.Takes.eq_between (h : mode.Takes rest final) (hbroken : Broken rest) (hne : rest ≠ []) :
    final = .between := by
  induction h with
  | nothing mode => exact absurd rfl hne
  | @shift mode next final c rest h hrest ih =>
      obtain ⟨hbroken, hlast⟩ := hbroken.tail
      by_cases hnil : rest = []
      · rw [hlast hnil] at h
        subst hnil
        cases hrest
        exact between_of_shift_newline h
      · exact ih hbroken hnil

/-! ### One call -/

/-- What a call comes to on characters that end in a line break. It answers in front of a character, or it reaches the
end and answers with the unreadable line there or not at all. -/
inductive Comes (failure : Option AccessError) (mode : Mode) (rest : List Char) : Option Lexed × Lexer → Prop where
  | found {answer : Lexed} {l : Lexer} (hanswer : ¬ IsReadError answer) (hbroken : Broken l.stream.rest)
      (hne : l.stream.rest ≠ []) (hfailure : l.stream.failure = failure)
      (hbudget : l.mode.budget l.stream.rest + 1 ≤ mode.budget rest) (hstays : ∀ final, ¬ mode.Takes rest final) :
      Comes failure mode rest (some answer, l)
  | unreadable {answer : Lexed} {l : Lexer} {final : Mode} (hanswer : IsReadError answer) (hfailure : failure.isSome = true)
      (hdone : l.Done) (hreaches : mode.Takes rest final) : Comes failure mode rest (some answer, l)
  | ended {l : Lexer} {final : Mode} (hfailure : failure = none) (hdone : l.Done) (hmode : l.mode = .skipping → final = .skipping)
      (hreaches : mode.Takes rest final) : Comes failure mode rest (none, l)

theorem Comes.shift (h : mode.react (some c) = .shift next) (hnext : Comes failure next rest result) :
    Comes failure mode (c :: rest) result := by
  cases hnext with
  | found hanswer hbroken hne hfailure hbudget hstays =>
      refine .found hanswer hbroken hne hfailure (Nat.le_trans hbudget (Mode.budget_of_shift h)) fun final htakes => ?_
      cases htakes with
      | shift h' hrest =>
          cases h.symm.trans h'
          exact hstays final hrest
  | unreadable hanswer hfailure hdone hreaches => exact .unreadable hanswer hfailure hdone (.shift h hreaches)
  | ended hfailure hdone hmode hreaches => exact .ended hfailure hdone hmode (.shift h hreaches)

theorem comes_run (hbroken : Broken rest) (hmode : mode.holdsToken = true → rest ≠ []) :
    Comes failure mode rest (run source failure mode start last rest here) := by
  have hstays {c : Char} {rest : List Char} {mode : Mode} (h : ∀ next, mode.react (some c) ≠ .shift next) (final : Mode) :
      ¬ mode.Takes (c :: rest) final := by
    intro htakes
    cases htakes with
    | shift hreact hrest => exact h _ hreact
  induction rest generalizing mode start last here with
  | nil =>
      have hfree : mode.holdsToken = false := Bool.eq_false_iff.2 fun h => hmode h rfl
      cases failure with
      | none =>
          rw [run, react_none_of_free hfree]
          refine .ended rfl ⟨rfl, rfl⟩ ?_ (.nothing mode)
          intro hskipping
          cases mode <;> first | rfl | cases hskipping
      | some error => exact .unreadable ⟨error, _, rfl⟩ rfl ⟨rfl, rfl⟩ (.nothing mode)
  | cons c rest ih =>
      obtain ⟨hrest, hend⟩ := hbroken.tail
      rw [run]
      cases hreact : mode.react (some c) with
      | shift next =>
          refine .shift hreact (ih hrest ?_)
          -- The last character is a line break, behind which no token is under way.
          rintro hholds rfl
          rw [hend rfl] at hreact
          rw [between_of_shift_newline hreact] at hholds
          cases hholds
      | accept token =>
          refine .found ?_ hbroken (List.cons_ne_nil c rest) rfl (Mode.budget_of_accept hreact)
            (hstays fun next h => by rw [hreact] at h; cases h)
          rintro ⟨error, place, h⟩
          cases h
      | reject problem =>
          refine .found ?_ hbroken (List.cons_ne_nil c rest) rfl (Mode.budget_of_reject hreact)
            (hstays fun next h => by rw [hreact] at h; cases h)
          rintro ⟨error, place, h⟩
          cases h
          exact react_ne_input mode c error hreact
      | stop => exact absurd hreact (react_ne_stop mode c)

theorem comes_next? (hbroken : Broken l.stream.rest) : Comes l.stream.failure l.mode l.stream.rest l.next? := by
  apply comes_run hbroken
  intro h
  rw [mode] at h
  split at h <;> cases h

/-! ### All calls -/

theorem after_succ (l : Lexer) (count : Nat) : l.after (count + 1) = (l.after count).next?.2 :=
  Function.iterate_succ_apply' _ count l

theorem answerAt_succ (l : Lexer) (count : Nat) : l.answerAt (count + 1) = l.next?.2.answerAt count := rfl

theorem Comes.broken (h : Comes failure mode rest result) : Broken result.2.stream.rest := by
  cases h with
  | found hanswer hbroken hne hfailure hbudget hstays => exact hbroken
  | unreadable hanswer hfailure hdone hreaches => exact .inl hdone.1
  | ended hfailure hdone hmode hreaches => exact .inl hdone.1

/-- Only a call that reaches the end answers with an unreadable line or not at all. -/
theorem Comes.reaches_iff (h : Comes failure mode rest result) :
    (∃ final, mode.Takes rest final) ↔ result.1 = none ∨ ∃ answer, result.1 = some answer ∧ IsReadError answer := by
  cases h with
  | found hanswer hbroken hne hfailure hbudget hstays => simp [hanswer, hstays]
  | unreadable hanswer hfailure hdone hreaches => exact iff_of_true ⟨_, hreaches⟩ (.inr ⟨_, rfl, hanswer⟩)
  | ended hfailure hdone hmode hreaches => exact iff_of_true ⟨_, hreaches⟩ (.inl rfl)

theorem broken_after (hbroken : Broken l.stream.rest) (count : Nat) : Broken (l.after count).stream.rest := by
  induction count with
  | zero => exact hbroken
  | succ count ih =>
      rw [after_succ]
      exact (comes_next? ih).broken

theorem items_of_done (h : l.Done) : l.items = [] := by
  obtain ⟨⟨source, rest, failure, here⟩, skipping⟩ := l
  obtain ⟨rfl, rfl⟩ := h
  cases skipping <;> exact items_of_none rfl

/-- The items of a lexer are what its calls are answered. -/
theorem answerAt_eq (hbroken : Broken l.stream.rest) (count : Nat) : l.answerAt count = l.items[count]? := by
  induction count generalizing l with
  | zero =>
      show l.next?.1 = _
      cases hnext : l.next? with
      | mk answer after =>
          cases answer with
          | none => rw [items_of_none hnext, List.getElem?_nil]
          | some answer => rw [items_of_some hnext, List.getElem?_cons_zero]
  | succ count ih =>
      have hcomes := comes_next? hbroken
      rw [answerAt_succ, ih hcomes.broken]
      cases hnext : l.next? with
      | mk answer after =>
          rw [hnext] at hcomes
          cases hcomes with
          | ended hfailure hdone hmode hreaches =>
              rw [items_of_none hnext, items_of_done hdone, List.getElem?_nil, List.getElem?_nil]
          | _ => rw [items_of_some hnext, List.getElem?_cons_succ]

theorem length_items_le (l : Lexer) (hbroken : Broken l.stream.rest) : l.items.length ≤ l.toCome := by
  have hcomes := comes_next? hbroken
  cases hnext : l.next? with
  | mk answer after =>
      rw [hnext] at hcomes
      cases hcomes with
      | ended hfailure hdone hmode hreaches =>
          rw [items_of_none hnext]
          exact Nat.zero_le _
      | unreadable hanswer hfailure hdone hreaches =>
          rw [items_of_some hnext, items_of_done hdone, toCome, hfailure]
          exact Nat.le_add_left _ _
      | found hanswer hleft hne hfailure hbudget hstays =>
          have hsmaller := pending_lt_of_next? hnext
          have ih := length_items_le after hleft
          rw [toCome, hfailure] at ih
          rw [items_of_some hnext, List.length_cons, toCome]
          omega
  termination_by l.pending

/-- A lexer that reaches the end while it skips a line has reported an unreadable line before. -/
theorem readError_before (hbroken : Broken l.stream.rest) (hstart : l.skipping = false) (count : Nat)
    (hmode : (l.after count).mode = .skipping) (hnil : (l.after count).stream.rest = []) :
    ∃ earlier < count, ∃ answer, l.answerAt earlier = some answer ∧ IsReadError answer := by
  induction count with
  | zero =>
      have hbetween : l.mode = .between := by rw [mode, hstart, if_neg Bool.false_ne_true]
      exact absurd (hbetween.symm.trans hmode) Mode.noConfusion
  | succ count ih =>
      rw [after_succ] at hmode hnil
      have hcomes := comes_next? (broken_after hbroken count)
      cases hnext : (l.after count).next? with
      | mk answer after =>
          rw [hnext] at hcomes hmode hnil
          cases hcomes with
          | found hanswer hleft hne hfailure hbudget hstays => exact absurd hnil hne
          | unreadable hanswer hfailure hdone hreaches =>
              exact ⟨count, Nat.lt_succ_self count, _, congrArg Prod.fst hnext, hanswer⟩
          | @ended _ final hfailure hdone hskips hreaches =>
              have hfinal := hskips hmode
              subst hfinal
              -- With characters left the call would have ended between tokens, so it found none.
              by_cases hrest : (l.after count).stream.rest = []
              · rw [hrest] at hreaches
                obtain ⟨earlier, hearlier, hread⟩ := ih hreaches.eq_of_nil.symm hrest
                exact ⟨earlier, Nat.lt_succ_of_lt hearlier, hread⟩
              · exact absurd (hreaches.eq_between (broken_after hbroken count) hrest) Mode.noConfusion

/-- Where a lexer reaches the end it is between tokens, unless it has reported an unreadable line. -/
theorem mode_of_reachesEnd (hbroken : Broken l.stream.rest) (hstart : l.skipping = false) (count : Nat)
    (hreaches : (l.after count).ReachesEnd final) :
    final = .between ∨
      final = .skipping ∧ ∃ earlier < count, ∃ answer, l.answerAt earlier = some answer ∧ IsReadError answer := by
  by_cases hrest : (l.after count).stream.rest = []
  · rw [ReachesEnd, hrest] at hreaches
    have hfinal := hreaches.eq_of_nil
    cases hskipping : (l.after count).skipping with
    | false =>
        left
        rw [hfinal, mode, hskipping, if_neg Bool.false_ne_true]
    | true =>
        have hmode : (l.after count).mode = .skipping := by rw [mode, hskipping, if_pos rfl]
        exact .inr ⟨hfinal.trans hmode, readError_before hbroken hstart count hmode hrest⟩
  · exact .inl (hreaches.eq_between (broken_after hbroken count) hrest)

/-- **A lexer answers no more often than there are characters, and then none for good.** An unreadable line is one answer
more. A call that is answered by none, or by an unreadable line, has reached the end, and no other call has. No token is
under way there: the lexer is between tokens, or it still skips the unreadable line that it has reported before. -/
theorem answers_end (s : Source) :
    (∀ count, (ofSource s).answerAt count = (ofSource s).items[count]?) ∧
      (ofSource s).items.length ≤ s.reading.chars.length + (if s.reading.failure.isSome then 1 else 0) ∧
      ∀ count,
        ((∃ final, ((ofSource s).after count).ReachesEnd final) ↔ (ofSource s).answerAt count = none ∨
          ∃ answer, (ofSource s).answerAt count = some answer ∧ IsReadError answer) ∧
        ∀ final, ((ofSource s).after count).ReachesEnd final → final = .between ∨ final = .skipping ∧
          ∃ earlier < count, ∃ answer, (ofSource s).answerAt earlier = some answer ∧ IsReadError answer := by
  have hbroken : Broken (ofSource s).stream.rest := broken_lines s.reading.lines
  refine ⟨answerAt_eq hbroken, length_items_le (ofSource s) hbroken, fun count => ⟨?_, fun final hreaches => ?_⟩⟩
  · exact (comes_next? (broken_after hbroken count)).reaches_iff
  · exact mode_of_reachesEnd hbroken rfl count hreaches

end FormulaCompiler.Lexer
