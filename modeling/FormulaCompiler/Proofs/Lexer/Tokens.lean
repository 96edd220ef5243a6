import FormulaCompiler.Proofs.Binary64.Text
import FormulaCompiler.Scan

/-!
# The tokens of a lexer

Names come out of the lexer as words, which have at least one character and only letters, digits and
underscores, and numbers come out finite (`wellFormed_of_mem_answers`). A mode keeps the part of this that
concerns the characters taken so far.
-/

namespace FormulaCompiler

/-- Whether a token is a finite number, a word, or no name at all. -/
def Token.WellFormed : Token → Prop
  | number value => value.isNaN = false
  | identifier name => name.spelling ≠ "" ∧ ∀ c ∈ name.spelling.toList, Lexer.isWordChar c = true
  | _ => True

namespace Lexer

/-- Whether the letters of a mode, if there are any, begin a word. -/
def Mode.WellFormed : Mode → Prop
  | word letters => letters ≠ "" ∧ ∀ c ∈ letters.toList, isWordChar c = true
  | _ => True

variable {mode after : Mode} {next : Option Char} {token : Token}

theorem wellFormed_letter {c : Char} (h : c.isAlpha = true) : (Mode.word (String.singleton c)).WellFormed := by
  refine ⟨by simp [← String.toList_inj], ?_⟩
  intro d hmem
  rw [String.toList_singleton, List.mem_singleton] at hmem
  rw [hmem, isWordChar, Char.isAlphanum, h]
  rfl

theorem wellFormed_of_first? {c : Char} (h : Mode.first? c = some mode) : mode.WellFormed := by
  unfold Mode.first? at h
  repeat' split at h
  all_goals cases h
  all_goals first | trivial | exact wellFormed_letter ‹_›

theorem numberToken_ne_shift (whole fraction : String) : numberToken whole fraction ≠ .shift after := by
  rw [numberToken]
  generalize (Decimal.ofDigits whole.toList fraction.toList).toBinary64? = value
  cases value <;> exact Reaction.noConfusion

theorem wellFormed_push {letters : String} {c : Char} (hletters : (Mode.word letters).WellFormed)
    (hc : isWordChar c = true) : (Mode.word (letters.push c)).WellFormed := by
  have hne : letters.push c ≠ "" := by
    intro hempty
    have hlength := congrArg String.length hempty
    rw [String.length_push] at hlength
    contradiction
  refine ⟨hne, ?_⟩
  rw [String.toList_push, List.forall_mem_append]
  exact ⟨hletters.2, by simpa using hc⟩

theorem wellFormed_of_shift (hmode : mode.WellFormed) (h : mode.react next = .shift after) : after.WellFormed := by
  cases next with
  | none =>
      cases mode with
      | whole digits => exact absurd h (numberToken_ne_shift _ _)
      | fraction whole places =>
          rw [Mode.react] at h
          split at h
          · cases h
          · exact absurd h (numberToken_ne_shift _ _)
      | _ => cases h
  | some c =>
      cases mode with
      | between =>
          rw [Mode.react] at h
          split at h <;> cases h
          exact wellFormed_of_first? ‹_›
      | skipping =>
          cases h
          split <;> trivial
      | complete symbol => cases h
      | comment =>
          cases h
          split <;> trivial
      | whole digits =>
          rw [Mode.react] at h
          repeat' split at h
          · cases h; trivial
          · cases h; trivial
          · exact absurd h (numberToken_ne_shift _ _)
      | fraction whole places =>
          rw [Mode.react] at h
          repeat' split at h
          · cases h; trivial
          · cases h
          · exact absurd h (numberToken_ne_shift _ _)
      | word letters =>
          rw [Mode.react] at h
          split at h <;> cases h
          exact wellFormed_push hmode ‹_›
      | _ =>
          rw [Mode.react] at h
          split at h <;> cases h
          trivial

theorem wellFormed_of_numberToken {whole fraction : String} (h : numberToken whole fraction = .accept token) :
    token.WellFormed := by
  rw [numberToken] at h
  cases hvalue : (Decimal.ofDigits whole.toList fraction.toList).toBinary64? with
  | none => rw [hvalue] at h; cases h
  | some value =>
      rw [hvalue] at h
      cases h
      exact Decimal.isNaN_of_toBinary64? hvalue

theorem wellFormed_wordToken {letters : String} (hletters : (Mode.word letters).WellFormed) :
    (wordToken letters).WellFormed := by
  rw [wordToken]
  split
  · trivial
  · exact hletters

theorem wellFormed_of_accept (hmode : mode.WellFormed) (h : mode.react next = .accept token) : token.WellFormed := by
  cases mode with
  | complete symbol =>
      cases h
      trivial
  | whole digits =>
      cases next with
      | none => exact wellFormed_of_numberToken h
      | some c =>
          rw [Mode.react] at h
          repeat' split at h
          · cases h
          · cases h
          · exact wellFormed_of_numberToken h
  | fraction whole places =>
      cases next with
      | none =>
          rw [Mode.react] at h
          split at h
          · cases h
          · exact wellFormed_of_numberToken h
      | some c =>
          rw [Mode.react] at h
          repeat' split at h
          · cases h
          · cases h
          · exact wellFormed_of_numberToken h
  | word letters =>
      cases next with
      | none =>
          cases h
          exact wellFormed_wordToken hmode
      | some c =>
          rw [Mode.react] at h
          split at h <;> cases h
          exact wellFormed_wordToken hmode
  | between =>
      cases next with
      | none => cases h
      | some c =>
          rw [Mode.react] at h
          split at h <;> cases h
  | skipping => cases next <;> cases h
  | comment => cases next <;> cases h
  | bang =>
      rw [Mode.react] at h
      split at h <;> cases h
  | _ =>
      rw [Mode.react] at h
      split at h <;> cases h
      trivial

theorem wellFormed_of_run {source : String} {failure : Option AccessError} {start last here : Position}
    {rest : List Char} {token : Spanned Token} {left : Lexer} (hmode : mode.WellFormed)
    (h : run source failure mode start last rest here = (some (.ok token), left)) : token.value.WellFormed := by
  induction rest generalizing mode start last here with
  | nil =>
      unfold run at h
      split at h
      · cases h
      · split at h <;> cases h
        exact wellFormed_of_accept hmode ‹_›
  | cons c rest ih =>
      rw [run] at h
      split at h
      · exact ih (wellFormed_of_shift hmode ‹_›) h
      · cases h
        exact wellFormed_of_accept hmode ‹_›
      · cases h
      · cases h

/-- Every token that the lexer answers is well-formed. -/
theorem wellFormed_of_mem_answers (l : Lexer) {token : Spanned Token} {after : Lexer}
    (h : (.ok token, after) ∈ l.answers) : token.value.WellFormed := by
  induction l using answers.induct with
  | case1 l left hnext =>
      rw [answers_of_none hnext] at h
      exact absurd h List.not_mem_nil
  | case2 l answer next hnext ih =>
      rw [answers_of_some hnext] at h
      rcases List.mem_cons.1 h with h | h
      · cases h
        refine wellFormed_of_run ?_ hnext
        split <;> trivial
      · exact ih h

end Lexer

/-! ### Scans -/

namespace Scan

variable {s after : Scan} {before : Array (Spanned Token)}

theorem pending_of_next? {lexed : Lexed} (h : s.next? = (some lexed, after)) :
    ∃ answer, s.pending = answer :: after.pending ∧ answer.lexed = lexed := by
  unfold next? at h
  split at h
  · cases h
  · rename_i answer pending hpending
    cases h
    exact ⟨answer, hpending, rfl⟩

theorem remainingTokens_of_none (h : s.next? = (none, after)) :
    s.remainingTokens before = (.ok before.toList, after) := by
  rw [remainingTokens]
  split <;> rename_i hnext <;> cases h.symm.trans hnext
  rfl

theorem remainingTokens_of_token {token : Spanned Token} (h : s.next? = (some (.ok token), after)) :
    s.remainingTokens before = after.remainingTokens (before.push token) := by
  rw [remainingTokens]
  split <;> rename_i hnext <;> cases h.symm.trans hnext
  rfl

theorem remainingTokens_of_error {error : Spanned LexError} (h : s.next? = (some (.error error), after)) :
    s.remainingTokens before = (.error (after.remainingErrors #[error]).1, (after.remainingErrors #[error]).2) := by
  rw [remainingTokens]
  split <;> rename_i hnext <;> cases h.symm.trans hnext
  rfl

/-- The tokens that a scan is asked for have been pending in it. -/
theorem mem_of_remainingTokens {left : Scan} {tokens : List (Spanned Token)} {token : Spanned Token}
    (h : s.remainingTokens before = (.ok tokens, left)) (hmem : token ∈ tokens) :
    token ∈ before.toList ∨ ∃ answer ∈ s.pending, answer.lexed = .ok token := by
  induction s, before using remainingTokens.induct with
  | case1 s before after hnext =>
      rw [remainingTokens_of_none hnext] at h
      cases h
      exact .inl hmem
  | case2 s before first after hnext ih =>
      obtain ⟨answer, hpending, hlexed⟩ := pending_of_next? hnext
      rw [remainingTokens_of_token hnext] at h
      rw [hpending]
      obtain hbefore | ⟨other, hmem, hother⟩ := ih h
      · rw [Array.toList_push, List.mem_append, List.mem_singleton] at hbefore
        rcases hbefore with hbefore | rfl
        · exact .inl hbefore
        · exact .inr ⟨answer, .head _, hlexed⟩
      · exact .inr ⟨other, .tail _ hmem, hother⟩
  | case3 s before error after hnext =>
      rw [remainingTokens_of_error hnext] at h
      cases h

end Scan

/-- The tokens that a parser is given by the lexer are well-formed. -/
theorem Lexer.wellFormed_of_exhaust {traced : Bool} {s : Source} {tokens : List (Spanned Token)} {left : Scan}
    (h : (scan traced s).exhaust = (.ok tokens, left)) : ∀ token ∈ tokens, token.value.WellFormed := by
  intro token hmem
  obtain hbefore | ⟨answer, hpending, hlexed⟩ := Scan.mem_of_remainingTokens h hmem
  · exact absurd hbefore List.not_mem_nil
  · obtain ⟨⟨lexed, after⟩, hanswer, rfl⟩ := List.mem_map.1 hpending
    have hlexed : lexed = .ok token := hlexed
    rw [hlexed] at hanswer
    exact wellFormed_of_mem_answers _ hanswer

end FormulaCompiler
