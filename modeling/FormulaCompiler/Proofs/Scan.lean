import FormulaCompiler.Proofs.Lexer.Places

/-!
# What a scan is exhausted to

Asking a scan to its end gives all the tokens in it or, if there is any error, all the errors and no token
(`exhaust_eq`). For the scan of a source by the lexer these are the answers of the lexer (`exhaust_scan`). In either
case the scan has been read to its end (`linesRead_exhaust`).
-/

namespace FormulaCompiler

open Lexer (tokensOf errorsOf)

namespace Scan

variable {s after : Scan}

/-- The answers still to come. -/
def items (s : Scan) : List Lexed := s.pending.map ScanAnswer.lexed

theorem items_of_none (h : s.next? = (none, after)) : s.items = [] := by
  unfold next? at h
  split at h
  · rename_i hpending
    rw [items, hpending, List.map_nil]
  · cases h

theorem items_of_some {lexed : Lexed} (h : s.next? = (some lexed, after)) : s.items = lexed :: after.items := by
  obtain ⟨answer, hpending, rfl⟩ := pending_of_next? h
  rw [items, hpending, List.map_cons]
  rfl

section

variable (errors : Array (Spanned LexError))

theorem remainingErrors_of_none (h : s.next? = (none, after)) : s.remainingErrors errors = (errors.toList, after) := by
  rw [remainingErrors]
  split <;> rename_i hnext <;> cases h.symm.trans hnext
  rfl

theorem remainingErrors_of_token {token : Spanned Token} (h : s.next? = (some (.ok token), after)) :
    s.remainingErrors errors = after.remainingErrors errors := by
  rw [remainingErrors]
  split <;> rename_i hnext <;> cases h.symm.trans hnext
  rfl

theorem remainingErrors_of_error {error : Spanned LexError} (h : s.next? = (some (.error error), after)) :
    s.remainingErrors errors = after.remainingErrors (errors.push error) := by
  rw [remainingErrors]
  split <;> rename_i hnext <;> cases h.symm.trans hnext
  rfl

end

theorem remainingErrors_eq (s : Scan) (errors : Array (Spanned LexError)) :
    (s.remainingErrors errors).1 = errors.toList ++ errorsOf s.items := by
  induction s, errors using remainingErrors.induct with
  | case1 s errors after hnext =>
      rw [remainingErrors_of_none errors hnext, items_of_none hnext]
      exact (List.append_nil _).symm
  | case2 s errors token after hnext ih =>
      rw [remainingErrors_of_token errors hnext, items_of_some hnext, ih]
      rfl
  | case3 s errors error after hnext ih =>
      rw [remainingErrors_of_error errors hnext, items_of_some hnext, ih, Array.toList_push, List.append_assoc]
      rfl

theorem remainingTokens_eq (s : Scan) (tokens : Array (Spanned Token)) :
    (s.remainingTokens tokens).1 =
      if errorsOf s.items = [] then .ok (tokens.toList ++ tokensOf s.items) else .error (errorsOf s.items) := by
  induction s, tokens using remainingTokens.induct with
  | case1 s tokens after hnext =>
      have hnone : errorsOf [] = [] := rfl
      rw [remainingTokens_of_none hnext, items_of_none hnext, if_pos hnone]
      exact congrArg Except.ok (List.append_nil _).symm
  | case2 s tokens token after hnext ih =>
      have htokens : (tokens.push token).toList ++ tokensOf after.items =
          tokens.toList ++ token :: tokensOf after.items := by
        rw [Array.toList_push, List.append_assoc]
        rfl
      rw [remainingTokens_of_token hnext, items_of_some hnext, ih, htokens]
      rfl
  | case3 s tokens error after hnext =>
      rw [remainingTokens_of_error hnext, items_of_some hnext, remainingErrors_eq]
      exact (if_neg (List.cons_ne_nil _ _)).symm

/-- All tokens if there is no error, and otherwise all errors. -/
theorem exhaust_eq (s : Scan) :
    s.exhaust.1 = if errorsOf s.items = [] then .ok (tokensOf s.items) else .error (errorsOf s.items) :=
  remainingTokens_eq s #[]

/-! ### Lines read -/

theorem linesRead_of_none (h : s.next? = (none, after)) : after.linesRead = s.linesAtEnd := by
  unfold next? at h
  split at h
  · cases h
    rfl
  · cases h

theorem linesAtEnd_of_some {lexed : Lexed} (h : s.next? = (some lexed, after)) : after.linesAtEnd = s.linesAtEnd := by
  unfold next? at h
  split at h
  · cases h
  · cases h
    rfl

theorem linesRead_remainingErrors (s : Scan) (errors : Array (Spanned LexError)) :
    (s.remainingErrors errors).2.linesRead = s.linesAtEnd := by
  induction s, errors using remainingErrors.induct with
  | case1 s errors after hnext =>
      rw [remainingErrors_of_none errors hnext]
      exact linesRead_of_none hnext
  | case2 s errors token after hnext ih =>
      rw [remainingErrors_of_token errors hnext]
      exact ih.trans (linesAtEnd_of_some hnext)
  | case3 s errors error after hnext ih =>
      rw [remainingErrors_of_error errors hnext]
      exact ih.trans (linesAtEnd_of_some hnext)

/-- Whatever comes of a scan, it has been read to its end. -/
theorem linesRead_exhaust (s : Scan) : s.exhaust.2.linesRead = s.linesAtEnd := by
  have hremaining (tokens : Array (Spanned Token)) : (s.remainingTokens tokens).2.linesRead = s.linesAtEnd := by
    induction s, tokens using remainingTokens.induct with
    | case1 s tokens after hnext =>
        rw [remainingTokens_of_none hnext]
        exact linesRead_of_none hnext
    | case2 s tokens token after hnext ih =>
        rw [remainingTokens_of_token hnext]
        exact ih.trans (linesAtEnd_of_some hnext)
    | case3 s tokens error after hnext =>
        rw [remainingTokens_of_error hnext]
        exact (linesRead_remainingErrors after _).trans (linesAtEnd_of_some hnext)
  exact hremaining #[]

end Scan

namespace Lexer

/-- Answers that are tokens, without their places. -/
theorem tokensOf_of_unplaced {items : List Lexed} {tokens : List Token} (h : items.map unplaced = tokens.map .ok) :
    errorsOf items = [] ∧ (tokensOf items).map (·.value) = tokens := by
  induction items generalizing tokens with
  | nil => exact ⟨rfl, (List.map_eq_nil_iff.1 h.symm).symm⟩
  | cons item items ih =>
      obtain ⟨token, more, rfl, htoken, hmore⟩ := List.map_eq_cons_iff.1 h.symm
      cases item with
      | error error => cases htoken
      | ok answered =>
          cases htoken
          obtain ⟨herrors, hvalues⟩ := ih hmore.symm
          exact ⟨herrors, congrArg (answered.value :: ·) hvalues⟩

theorem items_scan (traced : Bool) (s : Source) : (scan traced s).items = (ofSource s).items := by
  rw [Scan.items, scan, items, List.map_map]
  rfl

theorem exhaust_scan (traced : Bool) (s : Source) :
    (scan traced s).exhaust.1 =
      if errorsOf (ofSource s).items = [] then .ok (tokensOf (ofSource s).items)
      else .error (errorsOf (ofSource s).items) := by
  rw [Scan.exhaust_eq, items_scan]

end Lexer

end FormulaCompiler
