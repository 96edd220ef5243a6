import FormulaCompiler.Proofs.Listing.Operands
import FormulaCompiler.Proofs.Parser.Reductions
import FormulaCompiler.Proofs.Session.Independence

/-!
# What a trace shows

Tracing changes nothing but the log. A traced lexer logs every token that it gives, whether an error has come before
it or not, and a traced parser every operation that it completes, which are the operations of the tree if there is
one. Main statement: `engine_traced`.
-/

namespace FormulaCompiler

open Lexer (tokensOf errorsOf)

/-! ### Logs of scans -/

namespace Scan

variable {s after : Scan}

/-- The lines to come. -/
def lines (s : Scan) : List LogEntry := s.pending.flatMap ScanAnswer.log

theorem lines_of_none (h : s.next? = (none, after)) : s.lines = [] ∧ after.log = s.log := by
  unfold next? at h
  split at h
  · rename_i hpending
    cases h
    rw [lines, hpending]
    exact ⟨rfl, rfl⟩
  · cases h

theorem lines_of_some {lexed : Lexed} (h : s.next? = (some lexed, after)) :
    s.log.toList ++ s.lines = after.log.toList ++ after.lines := by
  unfold next? at h
  split at h
  · cases h
  · rename_i answer pending hpending
    cases h
    rw [lines, hpending, List.flatMap_cons, Array.toList_append, List.toList_toArray, List.append_assoc]
    rfl

theorem log_remainingErrors (s : Scan) (errors : Array (Spanned LexError)) :
    (s.remainingErrors errors).2.log.toList = s.log.toList ++ s.lines := by
  induction s, errors using remainingErrors.induct with
  | case1 s errors after hnext =>
      obtain ⟨hlines, hlog⟩ := lines_of_none hnext
      rw [remainingErrors_of_none errors hnext, hlines, hlog, List.append_nil]
  | case2 s errors token after hnext ih =>
      rw [remainingErrors_of_token errors hnext, ih, lines_of_some hnext]
  | case3 s errors error after hnext ih =>
      rw [remainingErrors_of_error errors hnext, ih, lines_of_some hnext]

/-- A scan that is asked to its end logs all its lines, whether there is an error among the answers or not. -/
theorem log_exhaust (s : Scan) : s.exhaust.2.log.toList = s.log.toList ++ s.lines := by
  have hremaining (tokens : Array (Spanned Token)) :
      (s.remainingTokens tokens).2.log.toList = s.log.toList ++ s.lines := by
    induction s, tokens using remainingTokens.induct with
    | case1 s tokens after hnext =>
        obtain ⟨hlines, hlog⟩ := lines_of_none hnext
        rw [remainingTokens_of_none hnext, hlines, hlog, List.append_nil]
    | case2 s tokens token after hnext ih =>
        rw [remainingTokens_of_token hnext, ih, lines_of_some hnext]
    | case3 s tokens error after hnext =>
        rw [remainingTokens_of_error hnext, lines_of_some hnext]
        exact log_remainingErrors after _
  exact hremaining #[]

end Scan

/-- The lexer logs its tokens, if it is traced. -/
theorem Lexer.lines_scan (traced : Bool) (s : Source) :
    (scan traced s).lines = if traced then (tokensOf (ofSource s).items).map Token.scanned else [] := by
  rw [Scan.lines, scan, items, List.flatMap_map]
  generalize (ofSource s).answers = answers
  induction answers with
  | nil => cases traced <;> rfl
  | cons answer answers ih =>
      obtain ⟨item, after⟩ := answer
      rw [List.flatMap_cons, ih]
      cases item <;> cases traced <;> rfl

/-! ### Logs of the engine -/

namespace Parser

/-- What a parse adds to the log are lines about what it builds. -/
theorem log_parse {start : Span} {tokens : List (Spanned Token)} {built lost : List Reduction}
    (h : Course unit (initial start tokens false #[]) built lost) (traced : Bool) (log : Log) :
    (parse start tokens traced log).2.toList = log.toList ++ if traced then built.map Reduction.line else [] := by
  have hunit : unit (initial start tokens traced log) = _ := h.retraced traced log
  have hlines : (log ++ reducedLines traced built).toList =
      log.toList ++ if traced then built.map Reduction.line else [] := by
    rw [Array.toList_append, reducedLines]
    cases traced <;> rfl
  rw [parse_eq, hunit, ← hlines]
  cases unit (initial start tokens false #[]) <;> rfl

variable (source : Source) (start : Span)

theorem log_engine_of_errors (h : errorsOf (Lexer.ofSource source).items ≠ []) (scanning parsing : Bool) :
    (engine parsing start (Lexer.scan scanning source)).2.log.toList = (Lexer.scan scanning source).lines := by
  have hexhaust := Lexer.exhaust_scan scanning source
  have hlog := (Lexer.scan scanning source).log_exhaust
  rw [if_neg h] at hexhaust
  rw [engine]
  split <;> rename_i hresult <;> rw [hresult] at hexhaust hlog <;> cases hexhaust
  exact hlog

theorem log_engine_of_tokens (h : errorsOf (Lexer.ofSource source).items = []) {built lost : List Reduction}
    (hcourse : Course unit (initial start (tokensOf (Lexer.ofSource source).items) false #[]) built lost)
    (scanning parsing : Bool) :
    (engine parsing start (Lexer.scan scanning source)).2.log.toList =
      (Lexer.scan scanning source).lines ++ if parsing then built.map Reduction.line else [] := by
  have hexhaust := Lexer.exhaust_scan scanning source
  have hlog := (Lexer.scan scanning source).log_exhaust
  rw [if_pos h] at hexhaust
  rw [engine]
  split <;> rename_i hresult <;> rw [hresult] at hexhaust hlog <;> cases hexhaust
  refine (log_parse hcourse parsing _).trans ?_
  rw [hlog]
  rfl

/-- A tree is given by a run that has built the operations of the tree. -/
theorem exists_course (tokens : List (Spanned Token)) : ∃ built : List Reduction,
    Course unit (initial start tokens false #[]) built [] ∧
    ∀ node, (parse start tokens false #[]).1 = .ok node → built.map Reduction.node = node.reductions := by
  obtain ⟨built, ⟨hcourse, hvalue⟩, -⟩ := reduces_unit (initial start tokens false #[])
  refine ⟨built, hcourse, fun node hparse => ?_⟩
  rw [parse_eq] at hparse
  cases hunit : unit (initial start tokens false #[]) with
  | ok tree after =>
      rw [hunit] at hparse
      cases hparse
      exact hvalue hunit
  | error failure after =>
      rw [hunit] at hparse
      cases hparse

/-- **Tracing shows what is done and changes nothing.** The lines about tokens come first, and then, if the parser has
had its turn, one line about each operation that it has completed. None of them is from an attempt that was given up,
and if there is a tree they are about its operations. -/
theorem engine_traced : ∃ completed : List Reduction,
    (errorsOf (Lexer.ofSource source).items ≠ [] → completed = []) ∧
    (errorsOf (Lexer.ofSource source).items = [] →
      Course unit (initial start (tokensOf (Lexer.ofSource source).items) false #[]) completed []) ∧
    (∀ node, (engine false start (Lexer.scan false source)).1 = .ok node →
      completed.map Reduction.node = node.reductions ∧ node.reductions.Perm node.operations) ∧
    ∀ tracing : Tracing,
      ((Lexer.scan tracing.scanning source).pending.map fun answer => (answer.lexed, answer.linesRead)) =
        ((Lexer.scan false source).pending.map fun answer => (answer.lexed, answer.linesRead)) ∧
      (engine tracing.parsing start (Lexer.scan tracing.scanning source)).1 =
        (engine false start (Lexer.scan false source)).1 ∧
      (engine tracing.parsing start (Lexer.scan tracing.scanning source)).2.linesRead =
        (engine false start (Lexer.scan false source)).2.linesRead ∧
      (engine tracing.parsing start (Lexer.scan tracing.scanning source)).2.log.toList =
        (if tracing.scanning then (tokensOf (Lexer.ofSource source).items).map Token.scanned else []) ++
          if tracing.parsing then completed.map Reduction.line else [] := by
  have hanswers (scanning : Bool) :
      ((Lexer.scan scanning source).pending.map fun answer => (answer.lexed, answer.linesRead)) =
        (Lexer.ofSource source).answers.map fun answer => (answer.1, answer.2.stream.linesSeen) := by
    rw [Lexer.scan, List.map_map]
    rfl
  have hunseen (tracing : Tracing) : _ ∧ _ ∧ _ :=
    ⟨(hanswers tracing.scanning).trans (hanswers false).symm,
      engine_untraced start source tracing.scanning tracing.parsing false false,
      (linesRead_engine start source tracing.scanning tracing.parsing).trans (linesRead_engine start source false false).symm⟩
  by_cases herrors : errorsOf (Lexer.ofSource source).items = []
  · obtain ⟨completed, hcourse, hnode⟩ := exists_course start (tokensOf (Lexer.ofSource source).items)
    refine ⟨completed, fun hne => absurd herrors hne, fun _ => hcourse, fun node h => ?_, fun tracing => ?_⟩
    · obtain ⟨log, hengine⟩ := engine_of_tokens source start false false herrors
      rw [hengine, parse_untraced start _ false false log #[]] at h
      exact ⟨hnode node (ok_of_mapError h), node.reductions_perm⟩
    · obtain ⟨hanswers, hanswer, hlines⟩ := hunseen tracing
      refine ⟨hanswers, hanswer, hlines, ?_⟩
      rw [log_engine_of_tokens source start herrors hcourse, Lexer.lines_scan]
  · refine ⟨[], fun _ => rfl, fun hnone => absurd hnone herrors, fun node h => ?_, fun tracing => ?_⟩
    · rw [engine_of_errors source start false false herrors] at h
      cases h
    · obtain ⟨hanswers, hanswer, hlines⟩ := hunseen tracing
      refine ⟨hanswers, hanswer, hlines, ?_⟩
      rw [log_engine_of_errors source start herrors, Lexer.lines_scan]
      cases tracing.parsing <;> exact (List.append_nil _).symm

/-- The parameters of `fn f ( a , b ) = g ( 2 , - b )` are completed after the body. -/
theorem engine_traced_weighted :
    ∃ completed : List Reduction,
      (completed.map fun reduction => reduction.node.text) =
        ["(neg b)", "(call g 2 (neg b))", "(params a b)", "(func f (params a b) (call g 2 (neg b)))"] ∧
      (engine true default (Lexer.scan false (.ofText "weighted" "fn f ( a , b ) = g ( 2 , - b )"))).2.log.toList =
        completed.map Reduction.line := by
  have htexts : Listing.weighted.tree.reductions.map Node.text =
      ["(neg b)", "(call g 2 (neg b))", "(params a b)", "(func f (params a b) (call g 2 (neg b)))"] := by decide +kernel
  obtain ⟨completed, -, -, hnodes, htraced⟩ :=
    engine_traced (.ofText "weighted" "fn f ( a , b ) = g ( 2 , - b )") default
  obtain ⟨-, -, -, hlog⟩ := htraced { parsing := true }
  refine ⟨completed, ?_, hlog⟩
  rw [← htexts, ← (hnodes _ Listing.engine_weighted).1, List.map_map]
  rfl

end Parser

end FormulaCompiler
