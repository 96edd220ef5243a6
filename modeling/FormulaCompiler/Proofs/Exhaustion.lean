import FormulaCompiler.Proofs.Lexer.Progress
import FormulaCompiler.Proofs.Scan

/-!
# Asking for everything at once

Whatever can be asked for tokens is a `Tokenizer`: a lexer is one, and so is a scan. Asked call by call, a scan answers
its items and then none for good (`Scan.answerAt_eq`), so a scan stands for every tokenizer whose answers end. Main
statement: whatever has been asked before, exhausting the scan comes to what further calls would have come to, and
leaves the scan where they would have left it (`exhaust_of_ends`).
-/

namespace FormulaCompiler

open Lexer (tokensOf errorsOf)

/-- What a call is answered in a state, and the state after it. -/
abbrev Tokenizer (σ : Type) := σ → Option Lexed × σ

namespace Tokenizer

variable {σ : Type} (t : Tokenizer σ)

/-- The state after some calls. -/
def after (calls : Nat) (state : σ) : σ := Nat.iterate (fun state => (t state).2) calls state

/-- What the call after some others is answered. -/
def answerAt (calls : Nat) (state : σ) : Option Lexed := (t (t.after calls state)).1

/-- Whether the answers end: after a number of them every call is answered by none. -/
def Ends (state : σ) : Prop := ∃ count, ∀ calls, t.answerAt calls state = none ↔ count ≤ calls

variable {t} {state : σ}

theorem after_add (first more : Nat) (state : σ) :
    t.after (first + more) state = t.after more (t.after first state) := by
  rw [Nat.add_comm]
  exact Function.iterate_add_apply _ more first state

theorem answerAt_add (first more : Nat) (state : σ) :
    t.answerAt (first + more) state = t.answerAt more (t.after first state) := by
  rw [answerAt, answerAt, after_add]

theorem ends_of_answers {items : List Lexed} (h : ∀ calls, t.answerAt calls state = items[calls]?) : t.Ends state :=
  ⟨items.length, fun calls => by rw [h, List.getElem?_eq_none_iff]⟩

/-- Answers that end are those in a list. -/
theorem Ends.exists_answers (h : t.Ends state) :
    ∃ items : List Lexed, ∀ calls, t.answerAt calls state = items[calls]? := by
  obtain ⟨count, hcount⟩ := h
  induction count generalizing state with
  | zero => exact ⟨[], fun calls => by rw [List.getElem?_nil, hcount]; exact Nat.zero_le _⟩
  | succ count ih =>
      have hlater (calls : Nat) : t.answerAt calls (t state).2 = none ↔ count ≤ calls :=
        (hcount (calls + 1)).trans Nat.succ_le_succ_iff
      obtain ⟨items, hitems⟩ := ih hlater
      cases hfirst : t.answerAt 0 state with
      | none => exact absurd ((hcount 0).1 hfirst) (Nat.not_succ_le_zero count)
      | some first =>
          refine ⟨first :: items, fun calls => ?_⟩
          cases calls with
          | zero => exact hfirst
          | succ calls => exact hitems calls

end Tokenizer

namespace Scan

variable {σ : Type} {t : Tokenizer σ} {state : σ} {s after : Scan}

/-- Whether a scan answers every call as a tokenizer does. -/
def StandsFor (s : Scan) (t : Tokenizer σ) (state : σ) : Prop :=
  ∀ calls, Tokenizer.answerAt next? calls s = t.answerAt calls state

/-! ### Scans that are asked call by call -/

theorem items_next? (s : Scan) : s.next?.2.items = s.items.tail ∧ s.next?.1 = s.items.head? := by
  cases hnext : s.next? with
  | mk answer after =>
      cases answer with
      | none =>
          have hpending : s.pending = [] := List.map_eq_nil_iff.1 (items_of_none hnext)
          rw [next?, hpending] at hnext
          cases hnext
          exact ⟨by rw [items, items, hpending]; rfl, by rw [items, hpending]; rfl⟩
      | some lexed =>
          rw [items_of_some hnext]
          exact ⟨rfl, rfl⟩

theorem items_after (calls : Nat) (s : Scan) : (Tokenizer.after next? calls s).items = s.items.drop calls := by
  induction calls generalizing s with
  | zero => rfl
  | succ calls ih =>
      have hlater : (Tokenizer.after next? calls s.next?.2).items = s.items.tail.drop calls := by
        rw [ih, (items_next? s).1]
      rw [List.drop_tail] at hlater
      exact hlater

theorem answerAt_eq (calls : Nat) (s : Scan) : Tokenizer.answerAt next? calls s = s.items[calls]? := by
  rw [Tokenizer.answerAt, (items_next? _).2, items_after, List.head?_drop]

/-- A scan that has given all its items answers none for good. -/
theorem answerAt_of_items_eq_nil (h : s.items = []) (calls : Nat) : Tokenizer.answerAt next? calls s = none := by
  rw [answerAt_eq, h, List.getElem?_nil]

/-- For answers that end there is a scan. -/
theorem exists_standsFor (h : t.Ends state) : ∃ s : Scan, s.StandsFor t state := by
  obtain ⟨items, hitems⟩ := h.exists_answers
  refine ⟨{ pending := items.map fun lexed => { lexed, linesRead := 0 }, linesAtEnd := 0 }, fun calls => ?_⟩
  rw [answerAt_eq, Scan.items, List.map_map, hitems]
  exact congrArg (·[calls]?) (List.map_id items)

/-! ### Scans that are exhausted -/

/-- Where asking until there is no answer leaves a scan. -/
def last (s : Scan) : Scan := Tokenizer.after next? (s.items.length + 1) s

theorem last_of_none (h : s.next? = (none, after)) : s.last = after := by
  rw [last, items_of_none h]
  exact congrArg Prod.snd h

theorem last_of_some {lexed : Lexed} (h : s.next? = (some lexed, after)) : s.last = after.last := by
  have hafter : s.next?.2 = after := congrArg Prod.snd h
  rw [last, last, items_of_some h, ← hafter]
  rfl

theorem remainingErrors_last (s : Scan) (errors : Array (Spanned LexError)) : (s.remainingErrors errors).2 = s.last := by
  induction s, errors using remainingErrors.induct with
  | case1 s errors after hnext => rw [remainingErrors_of_none errors hnext, last_of_none hnext]
  | case2 s errors token after hnext ih => rw [remainingErrors_of_token errors hnext, last_of_some hnext, ih]
  | case3 s errors error after hnext ih => rw [remainingErrors_of_error errors hnext, last_of_some hnext, ih]

/-- An error makes no difference to where a scan is left. -/
theorem remainingTokens_last (s : Scan) (tokens : Array (Spanned Token)) : (s.remainingTokens tokens).2 = s.last := by
  induction s, tokens using remainingTokens.induct with
  | case1 s tokens after hnext => rw [remainingTokens_of_none hnext, last_of_none hnext]
  | case2 s tokens token after hnext ih => rw [remainingTokens_of_token hnext, last_of_some hnext, ih]
  | case3 s tokens error after hnext =>
      rw [remainingTokens_of_error hnext, last_of_some hnext]
      exact remainingErrors_last after _

theorem items_last (s : Scan) : s.last.items = [] := by
  rw [last, items_after, List.drop_eq_nil_of_le (Nat.le_succ _)]

end Scan

/-! ### Tokens and errors -/

namespace Lexer

/-- Answers without an error among them are tokens. -/
theorem eq_map_tokensOf {items : List Lexed} (h : ∀ error, .error error ∉ items) :
    items = (tokensOf items).map .ok ∧ errorsOf items = [] := by
  induction items with
  | nil => exact ⟨rfl, rfl⟩
  | cons item items ih =>
      obtain ⟨htokens, herrors⟩ := ih fun error hmem => h error (List.mem_cons_of_mem _ hmem)
      cases item with
      | error error => exact absurd List.mem_cons_self (h error)
      | ok token => exact ⟨congrArg (.ok token :: ·) htokens, herrors⟩

theorem errorsOf_ne_nil {items : List Lexed} {error : Spanned LexError} (h : .error error ∈ items) :
    errorsOf items ≠ [] :=
  List.ne_nil_of_mem (mem_errorsOf.2 h)

theorem answerAt_ofSource (s : Source) (calls : Nat) :
    Tokenizer.answerAt next? calls (ofSource s) = (ofSource s).items[calls]? :=
  answerAt_eq (broken_lines s.reading.lines) calls

theorem ends_ofSource (s : Source) : Tokenizer.Ends next? (ofSource s) := Tokenizer.ends_of_answers (answerAt_ofSource s)

/-- The scan of a source by the lexer stands for the lexer itself. -/
theorem standsFor_scan (traced : Bool) (s : Source) : (scan traced s).StandsFor next? (ofSource s) := by
  intro calls
  rw [Scan.answerAt_eq, items_scan, answerAt_ofSource]

end Lexer

/-- **Asking for everything at once comes to the same as asking call by call.** However many calls have been made, the
pass gives all the answers that are left if they are tokens, and otherwise all the errors among them; either way it
leaves the scan where asking on until there is no answer leaves it, and from there no call is answered. -/
theorem Scan.exhaust_of_ends {σ : Type} {t : Tokenizer σ} {state : σ} (hends : t.Ends state) :
    (∃ s : Scan, s.StandsFor t state) ∧
    ∀ s : Scan, s.StandsFor t state → ∀ calls,
      ∃ remaining : List Lexed, (∀ later, t.answerAt (calls + later) state = remaining[later]?) ∧
        let pass := (Tokenizer.after next? calls s).exhaust
        ((∀ error, .error error ∉ remaining) → ∃ tokens, remaining = tokens.map .ok ∧ pass.1 = .ok tokens) ∧
        ((∃ error, .error error ∈ remaining) → pass.1 = .error (errorsOf remaining)) ∧
        pass.2 = Tokenizer.after next? (calls + (remaining.length + 1)) s ∧
        ∀ later, Tokenizer.answerAt next? later pass.2 = none := by
  refine ⟨exists_standsFor hends, fun s hstands calls => ?_⟩
  have hpass := exhaust_eq (Tokenizer.after next? calls s)
  have hlast : (Tokenizer.after next? calls s).exhaust.2 = (Tokenizer.after next? calls s).last :=
    remainingTokens_last _ _
  refine ⟨(Tokenizer.after next? calls s).items, fun later => ?_, fun hnone => ?_, fun ⟨error, hmem⟩ => ?_, ?_, ?_⟩
  · rw [← hstands, Tokenizer.answerAt_add, answerAt_eq]
  · obtain ⟨htokens, herrors⟩ := Lexer.eq_map_tokensOf hnone
    exact ⟨_, htokens, hpass.trans (if_pos herrors)⟩
  · exact hpass.trans (if_neg (Lexer.errorsOf_ne_nil hmem))
  · exact hlast.trans (Tokenizer.after_add calls _ s).symm
  · rw [hlast]
    exact answerAt_of_items_eq_nil (items_last _)

/-- Two errors with a token between them. -/
def alternating : Source := Source.ofText "alternating" "=$\n+\n!"

theorem Lexer.items_alternating : (ofSource alternating).items =
    [.ok ⟨.symbol .assign, "alternating", ⟨1, 1⟩, ⟨1, 2⟩⟩, .error ⟨.badChar '$', .single "alternating" ⟨1, 2⟩⟩,
      .ok ⟨.symbol .plus, "alternating", ⟨2, 1⟩, ⟨2, 2⟩⟩, .error ⟨.expected '=', .single "alternating" ⟨3, 2⟩⟩] := by
  have hsource : ofSource alternating = inFrontOf "alternating" ['=', '$', '\n', '+', '\n', '!', '\n'] ⟨1, 1⟩ false := by
    rw [ofSource, CharStream.ofSource, alternating, Source.reading_ofText]
    rfl
  have hfirst : (ofSource alternating).next? = (some (.ok ⟨.symbol .assign, "alternating", ⟨1, 1⟩, ⟨1, 2⟩⟩),
      inFrontOf "alternating" ['$', '\n', '+', '\n', '!', '\n'] ⟨1, 2⟩ false) := by
    rw [hsource]
    rfl
  have hsecond : (inFrontOf "alternating" ['$', '\n', '+', '\n', '!', '\n'] ⟨1, 2⟩ false).next? =
      (some (.error ⟨.badChar '$', .single "alternating" ⟨1, 2⟩⟩),
        inFrontOf "alternating" ['$', '\n', '+', '\n', '!', '\n'] ⟨1, 2⟩ true) := rfl
  have hthird : (inFrontOf "alternating" ['$', '\n', '+', '\n', '!', '\n'] ⟨1, 2⟩ true).next? =
      (some (.ok ⟨.symbol .plus, "alternating", ⟨2, 1⟩, ⟨2, 2⟩⟩),
        inFrontOf "alternating" ['\n', '!', '\n'] ⟨2, 2⟩ false) := rfl
  have hfourth : (inFrontOf "alternating" ['\n', '!', '\n'] ⟨2, 2⟩ false).next? =
      (some (.error ⟨.expected '=', .single "alternating" ⟨3, 2⟩⟩), inFrontOf "alternating" ['\n'] ⟨3, 2⟩ true) := rfl
  have hlast : (inFrontOf "alternating" ['\n'] ⟨3, 2⟩ true).items = [] := items_of_none rfl
  rw [items_of_some hfirst, items_of_some hsecond, items_of_some hthird, items_of_some hfourth, hlast]

/-- Behind the first token both errors are left, and the second token is dropped. -/
theorem Scan.exhaust_of_ends_alternating :
    Tokenizer.Ends Lexer.next? (Lexer.ofSource alternating) ∧
    (Tokenizer.after next? 1 (Lexer.scan false alternating)).exhaust.1 =
      .error [⟨.badChar '$', .single "alternating" ⟨1, 2⟩⟩, ⟨.expected '=', .single "alternating" ⟨3, 2⟩⟩] := by
  have hends := Lexer.ends_ofSource alternating
  obtain ⟨-, hpass⟩ := exhaust_of_ends hends
  obtain ⟨remaining, hremaining, -, herrors, -⟩ := hpass _ (Lexer.standsFor_scan false alternating) 1
  have hitems : remaining = (Lexer.ofSource alternating).items.drop 1 := by
    refine List.ext_getElem? fun later => ?_
    rw [← hremaining, Lexer.answerAt_ofSource, List.getElem?_drop]
  rw [Lexer.items_alternating] at hitems
  subst hitems
  exact ⟨hends, herrors ⟨_, .head _⟩⟩

end FormulaCompiler
