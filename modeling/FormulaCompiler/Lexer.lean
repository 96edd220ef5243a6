import FormulaCompiler.Lexer.Mode
import FormulaCompiler.Source

/-!
# The lexer

A lexer stands between the tokens of a source. Asking it for the next token runs the modes over the
characters until one of them accepts or rejects. A token spans its characters from the first to the
last; an error stands at the next character, where the rest of its line is then skipped. An unreadable
line is an error at the position where its first character would have been.

Main statement: an answer always brings the lexer nearer to its end (`pending_lt_of_next?`), so that
all its answers form a list.
-/

namespace FormulaCompiler

/-- A token or an error, with its place. -/
abbrev Lexed := Except (Spanned LexError) (Spanned Token)

/-- A lexer between two answers. -/
structure Lexer where
  stream : CharStream
  /-- Whether the rest of the line is dropped, because an error in it has been reported. -/
  skipping : Bool := false

namespace Lexer

def ofSource (s : Source) : Lexer := { stream := CharStream.ofSource s }

/-- Runs from `mode` over the characters left. The token under way starts at `start`, and the last
character taken stood at `last`; both matter only once a token has begun. -/
def run (source : String) (failure : Option AccessError) (mode : Mode) (start last : Position) :
    (rest : List Char) → (here : Position) → Option Lexed × Lexer
  | [], here =>
      match failure with
      | some error =>
          (some (.error ⟨.input error, Span.single source here⟩), ⟨⟨source, [], none, here⟩, true⟩)
      | none =>
          match mode.react none with
          | .accept token =>
              (some (.ok ⟨token, ⟨source, start, last.advance⟩⟩), ⟨⟨source, [], none, here⟩, false⟩)
          | .reject error =>
              (some (.error ⟨error, Span.single source here⟩), ⟨⟨source, [], none, here⟩, true⟩)
          | _ => (none, ⟨⟨source, [], none, here⟩, mode == .skipping⟩)
  | c :: rest, here =>
      match mode.react (some c) with
      | .shift next =>
          run source failure next (if mode = .between then here else start) here rest (here.after c)
      | .accept token =>
          (some (.ok ⟨token, ⟨source, start, last.advance⟩⟩),
            ⟨⟨source, c :: rest, failure, here⟩, false⟩)
      | .reject error =>
          (some (.error ⟨error, Span.single source here⟩), ⟨⟨source, c :: rest, failure, here⟩, true⟩)
      | .stop => (none, ⟨⟨source, c :: rest, failure, here⟩, mode == .skipping⟩)

/-- The next token or error, `none` at the end of the input, and the lexer after it. -/
def next? (l : Lexer) : Option Lexed × Lexer :=
  run l.stream.source l.stream.failure (if l.skipping then .skipping else .between)
    l.stream.here l.stream.here l.stream.rest l.stream.here

/-! ### Progress -/

/-- A bound on the answers to come. A token takes characters, an error starts to skip, and skipping
takes characters again; an unreadable line is reported once. -/
def pending (l : Lexer) : Nat :=
  2 * l.stream.rest.length + (if l.stream.failure.isSome then 2 else 0)
    + (if l.skipping then 0 else 1)

theorem pending_le_of_run {source : String} {failure : Option AccessError} {mode : Mode}
    {start last here : Position} {rest : List Char} {answer : Lexed} {after : Lexer}
    (h : run source failure mode start last rest here = (some answer, after)) :
    after.pending ≤ 2 * rest.length + (if failure.isSome then 2 else 0)
      + (if mode.holdsToken then 1 else 0) := by
  induction rest generalizing mode start last here with
  | nil =>
      unfold run at h
      split at h
      · simp only [Prod.mk.injEq] at h
        simp [← h.2, pending]
      · split at h <;> simp only [Prod.mk.injEq, reduceCtorEq, false_and] at h
        · rename_i token hreact
          simp [← h.2, pending, Mode.holdsToken_of_react_accept hreact]
        · simp [← h.2, pending]
  | cons c rest ih =>
      unfold run at h
      split at h
      · rename_i next _
        have hrest := ih h
        have hholds : (if next.holdsToken then 1 else 0) ≤ 1 := by split <;> omega
        simp only [List.length_cons]
        omega
      · rename_i token hreact
        simp only [Prod.mk.injEq] at h
        simp [← h.2, pending, Mode.holdsToken_of_react_accept hreact]
      · simp only [Prod.mk.injEq] at h
        simp [← h.2, pending]
      · simp at h

theorem pending_lt_of_next? {l after : Lexer} {answer : Lexed}
    (h : l.next? = (some answer, after)) : after.pending < l.pending := by
  obtain ⟨⟨source, rest, failure, here⟩, skipping⟩ := l
  cases skipping with
  | false =>
      have := pending_le_of_run h
      simp only [Mode.holdsToken, Bool.false_eq_true, if_false] at this
      simp only [pending] at this ⊢
      simp only [Bool.false_eq_true, if_false]
      omega
  | true =>
      cases rest with
      | nil =>
          simp only [next?, run, if_true, Mode.react] at h
          split at h <;> simp only [Prod.mk.injEq, reduceCtorEq, false_and] at h
          simp [← h.2, pending]
      | cons c rest =>
          simp only [next?, run, if_true, Mode.react] at h
          have := pending_le_of_run h
          have hfree : (if c = '\n' then Mode.between else Mode.skipping).holdsToken = false := by
            split <;> rfl
          simp only [hfree] at this
          simp only [pending] at this ⊢
          simp only [List.length_cons, if_true]
          simp only [Bool.false_eq_true, if_false] at this
          omega

/-- All the answers that a lexer gives until it answers none, each with the lexer after it. -/
def answers (l : Lexer) : List (Lexed × Lexer) :=
  match _hnext : l.next? with
  | (none, _) => []
  | (some answer, after) => (answer, after) :: answers after
  termination_by l.pending
  decreasing_by exact pending_lt_of_next? _hnext

theorem answers_of_none {l after : Lexer} (h : l.next? = (none, after)) : l.answers = [] := by
  rw [answers]
  split
  · rfl
  · rename_i hsome
    rw [h] at hsome
    cases hsome

theorem answers_of_some {l after : Lexer} {answer : Lexed} (h : l.next? = (some answer, after)) :
    l.answers = (answer, after) :: after.answers := by
  rw [answers]
  split
  · rename_i hnone
    rw [h] at hnone
    cases hnone
  · rename_i hsome
    rw [h] at hsome
    cases hsome
    rfl

end Lexer

end FormulaCompiler
