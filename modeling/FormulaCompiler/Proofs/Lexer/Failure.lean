import FormulaCompiler.Proofs.Lexer.Tiling
import FormulaCompiler.Proofs.Source.Failure

/-!
# Lexers that come to an unreadable line

What can be read ends in a line break, behind which no token is under way. So a lexer answers up to an
unreadable line as if the source ended there, then reports the line where its first character would have stood,
and then has nothing more to say (`items_of_failsAfter`).
-/

namespace FormulaCompiler.Lexer

open Position (across)

variable {source : String} {mode next : Mode} {start last here : Position} {c : Char} {rest : List Char}

/-! ### Characters that end in a line break -/

/-- Whether some characters end in a line break, if there are any. -/
def Broken (chars : List Char) : Prop := chars = [] ∨ ∃ body, chars = body ++ ['\n']

theorem Broken.tail (h : Broken (c :: rest)) : Broken rest ∧ (rest = [] → c = '\n') := by
  obtain h | ⟨body, h⟩ := h
  · cases h
  · cases body with
    | nil =>
        cases h
        exact ⟨.inl rfl, fun _ => rfl⟩
    | cons d body =>
        cases h
        exact ⟨.inr ⟨body, rfl⟩, fun hnil => by simp at hnil⟩

theorem broken_lines (lines : List String) : Broken (lines.flatMap fun line => line.toList ++ ['\n']) := by
  induction lines with
  | nil => exact .inl rfl
  | cons line lines ih =>
      rw [List.flatMap_cons]
      obtain hnil | ⟨body, hbody⟩ := ih
      · exact .inr ⟨line.toList, by rw [hnil, List.append_nil]⟩
      · exact .inr ⟨line.toList ++ ['\n'] ++ body, by rw [hbody, List.append_assoc _ body]⟩

/-! ### One answer -/

theorem numberToken_ne_stop (whole fraction : String) : numberToken whole fraction ≠ .stop := by
  rw [numberToken]
  generalize (Decimal.ofDigits whole.toList fraction.toList).toBinary64? = value
  cases value <;> exact Reaction.noConfusion

/-- A lexer stops at the end only. -/
theorem react_ne_stop (mode : Mode) (c : Char) : mode.react (some c) ≠ .stop := by
  cases mode with
  | complete symbol => exact Reaction.noConfusion
  | skipping => exact Reaction.noConfusion
  | comment => exact Reaction.noConfusion
  | whole digits =>
      rw [Mode.react]
      repeat' split
      all_goals first | exact Reaction.noConfusion | exact numberToken_ne_stop _ _
  | fraction whole places =>
      rw [Mode.react]
      repeat' split
      all_goals first | exact Reaction.noConfusion | exact numberToken_ne_stop _ _
  | _ =>
      rw [Mode.react]
      split <;> exact Reaction.noConfusion

/-- A line break is taken between tokens only, and ends a comment or a line that is skipped. -/
theorem between_of_shift_newline (h : mode.react (some '\n') = .shift next) : next = .between := by
  cases hmode : mode.holdsToken with
  | false => cases mode <;> cases hmode <;> cases h <;> rfl
  | true =>
      have hblank : '\n' ∉ MaximalMunch.blanks := (holdsToken_of_shift hmode (fun _ => by decide) h).2.2
      exact absurd (by decide) hblank

theorem react_none_of_free (h : mode.holdsToken = false) : mode.react none = .stop := by
  cases mode <;> first | rfl | cases h

/-- A lexer answers the same whether or not the characters left are followed by an unreadable line, unless it
would have answered nothing: then it reports that line. -/
theorem run_failure (source : String) (error : AccessError) (start last here : Position) (hbroken : Broken rest)
    (hmode : mode.holdsToken = true → rest ≠ []) :
    (∃ answer left there skipping, Broken left ∧ there.across left = here.across rest ∧
      ∀ failure, run source failure mode start last rest here =
        (some answer, ⟨⟨source, left, failure, there⟩, skipping⟩)) ∨
    (∃ after, run source none mode start last rest here = (none, after)) ∧
      run source (some error) mode start last rest here =
        (some (.error ⟨.input error, Span.single source (here.across rest)⟩),
          ⟨⟨source, [], none, here.across rest⟩, true⟩) := by
  induction rest generalizing mode start last here with
  | nil =>
      have hfree : mode.holdsToken = false := by
        cases h : mode.holdsToken with
        | false => rfl
        | true => exact absurd rfl (hmode h)
      refine .inr ⟨?_, rfl⟩
      rw [run, react_none_of_free hfree]
      exact ⟨_, rfl⟩
  | cons c rest ih =>
      obtain ⟨hrest, hend⟩ := hbroken.tail
      cases hreact : mode.react (some c) with
      | shift next =>
          have hnext : next.holdsToken = true → rest ≠ [] := by
            rintro hholds rfl
            rw [hend rfl] at hreact
            rw [between_of_shift_newline hreact] at hholds
            cases hholds
          have hrun (failure : Option AccessError) : run source failure mode start last (c :: rest) here =
              run source failure next (if mode = .between then here else start) here rest (here.after c) := by
            rw [run, hreact]
          obtain ⟨answer, left, there, skipping, hleft, hacross, hlater⟩ | ⟨⟨after, hnone⟩, herror⟩ :=
            ih (if mode = .between then here else start) here (here.after c) hrest hnext
          · exact .inl ⟨answer, left, there, skipping, hleft, hacross, fun failure => (hrun failure).trans (hlater failure)⟩
          · exact .inr ⟨⟨after, (hrun none).trans hnone⟩, (hrun (some error)).trans herror⟩
      | accept token =>
          refine .inl ⟨.ok ⟨token, source, start, last.advance⟩, c :: rest, here, false, hbroken, rfl, fun failure => ?_⟩
          rw [run, hreact]
      | reject problem =>
          refine .inl ⟨.error ⟨problem, .single source here⟩, c :: rest, here, true, hbroken, rfl, fun failure => ?_⟩
          rw [run, hreact]
      | stop => exact absurd hreact (react_ne_stop mode c)

/-! ### All answers -/

theorem items_failing (source : String) (error : AccessError) (rest : List Char) (here : Position) (skipping : Bool)
    (hbroken : Broken rest) : Lexer.items ⟨⟨source, rest, some error, here⟩, skipping⟩ =
      (inFrontOf source rest here skipping).items ++
        [.error ⟨.input error, Span.single source (here.across rest)⟩] := by
  have hmode : (if skipping then Mode.skipping else .between).holdsToken = true → rest ≠ [] := by
    intro h
    split at h <;> cases h
  obtain ⟨answer, left, there, skips, hleft, hacross, hrun⟩ | ⟨⟨after, hnone⟩, herror⟩ :=
    run_failure source error here here here hbroken hmode
  · have hfailing : Lexer.next? ⟨⟨source, rest, some error, here⟩, skipping⟩ =
        (some answer, ⟨⟨source, left, some error, there⟩, skips⟩) := hrun (some error)
    have hnext : (inFrontOf source rest here skipping).next? = (some answer, inFrontOf source left there skips) := hrun none
    have hsmaller : (inFrontOf source left there skips).pending < (inFrontOf source rest here skipping).pending :=
      pending_lt_of_next? hnext
    rw [items_of_some hfailing, items_of_some hnext, items_failing source error left there skips hleft, hacross]
    rfl
  · have hnext : (inFrontOf source rest here skipping).next? = (none, after) := hnone
    have hfailing : Lexer.next? ⟨⟨source, rest, some error, here⟩, skipping⟩ = _ := herror
    have hlast : Lexer.items ⟨⟨source, [], none, here.across rest⟩, true⟩ = [] := items_of_none rfl
    rw [items_of_none hnext, items_of_some hfailing, hlast]
    rfl
  termination_by (inFrontOf source rest here skipping).pending

/-- A lexer answers what the lines in front of an unreadable one come to, and then its error. -/
theorem items_of_failsAfter {s : Source} {before : List (List UInt8)} {error : AccessError}
    (h : s.FailsAfter before error) :
    (ofSource s).items = (ofSource (s.beginning before)).items ++
      [.error ⟨.input error, Span.single s.name ⟨before.length + 1, 1⟩⟩] := by
  obtain ⟨lines, hlength, hreading, hbefore⟩ := h.exists_lines
  have hlines : ∀ line ∈ lines, '\n' ∉ line.toList := by
    have hmem := (s.beginning before).newline_notMem_lines
    rwa [hbefore] at hmem
  have hsource : ofSource s =
      ⟨⟨s.name, lines.flatMap fun line => line.toList ++ ['\n'], some error, ⟨1, 1⟩⟩, false⟩ := by
    rw [ofSource, CharStream.ofSource, hreading]
    rfl
  have hbeginning : ofSource (s.beginning before) =
      inFrontOf s.name (lines.flatMap fun line => line.toList ++ ['\n']) ⟨1, 1⟩ false := by
    rw [ofSource, CharStream.ofSource, hbefore]
    rfl
  rw [hsource, hbeginning, items_failing _ _ _ _ _ (broken_lines lines), Position.across_lines lines 1 hlines, hlength,
    Nat.add_comm 1]

theorem readable_of_errorsOf {s : Source} (h : errorsOf (ofSource s).items = []) : s.reading.failure = none := by
  apply Source.readable_of_not_failsAfter
  intro before error hfails
  have hmem : .error ⟨.input error, Span.single s.name ⟨before.length + 1, 1⟩⟩ ∈ (ofSource s).items := by
    rw [items_of_failsAfter hfails]
    exact List.mem_append_right _ (List.mem_singleton_self _)
  rw [← mem_errorsOf, h] at hmem
  exact List.not_mem_nil hmem

end FormulaCompiler.Lexer
