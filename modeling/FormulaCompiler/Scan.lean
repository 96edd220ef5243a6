import FormulaCompiler.Lexer
import FormulaCompiler.Log

/-!
# Scans

A parser sees a source only as a scan: it asks for the next answer, a token or an error, until there
is none. A scan also records what its caller cannot see in the answers, namely how many lines of the
source have been read to give them and what was logged on the way. A scanner starts a scan of a
source; the lexer is one, and others can take its place.
-/

namespace FormulaCompiler

/-- One answer of a scan, with the lines of the source read by then and what giving it logs. -/
structure ScanAnswer where
  lexed : Lexed
  linesRead : Nat
  log : List LogEntry := []

/-- A scan under way: the answers still to come, and what has been read and logged for those given. -/
structure Scan where
  pending : List ScanAnswer
  /-- The lines read once the scan has answered none. -/
  linesAtEnd : Nat
  linesRead : Nat := 0
  log : Log := #[]

namespace Scan

def next? (s : Scan) : Option Lexed × Scan :=
  match s.pending with
  | [] => (none, { s with linesRead := s.linesAtEnd })
  | answer :: pending =>
      (some answer.lexed,
        { s with pending, linesRead := answer.linesRead, log := s.log ++ answer.log.toArray })

theorem pending_length_lt_of_next? {s after : Scan} {answer : Lexed}
    (h : s.next? = (some answer, after)) : after.pending.length < s.pending.length := by
  unfold next? at h
  split at h <;> simp only [Prod.mk.injEq, reduceCtorEq, false_and] at h
  rename_i hpending
  simp [hpending, ← h.2]

/-- Asks a scan to its end and keeps only the errors, after those in `errors`. -/
def remainingErrors (s : Scan) (errors : Array (Spanned LexError)) :
    List (Spanned LexError) × Scan :=
  match _hnext : s.next? with
  | (none, after) => (errors.toList, after)
  | (some (.ok _), after) => remainingErrors after errors
  | (some (.error error), after) => remainingErrors after (errors.push error)
  termination_by s.pending.length
  decreasing_by all_goals exact pending_length_lt_of_next? _hnext

/-- Asks a scan to its end and keeps the tokens, after those in `tokens`, until an error comes; then
only the errors count. -/
def remainingTokens (s : Scan) (tokens : Array (Spanned Token)) :
    Except (List (Spanned LexError)) (List (Spanned Token)) × Scan :=
  match _hnext : s.next? with
  | (none, after) => (.ok tokens.toList, after)
  | (some (.ok token), after) => remainingTokens after (tokens.push token)
  | (some (.error error), after) =>
      let (errors, last) := after.remainingErrors #[error]
      (.error errors, last)
  termination_by s.pending.length
  decreasing_by all_goals exact pending_length_lt_of_next? _hnext

/-- All remaining tokens, or all remaining errors if there is one. -/
def exhaust (s : Scan) : Except (List (Spanned LexError)) (List (Spanned Token)) × Scan :=
  s.remainingTokens #[]

end Scan

abbrev Scanner := Source → Scan

def Token.scanned (token : Spanned Token) : LogEntry :=
  ⟨.trace, "scanned " ++ token.value.text ++ " at " ++ token.span.text⟩

/-- The scan of a source by the lexer, which logs each token if it is `traced`. -/
def Lexer.scan (traced : Bool) (s : Source) : Scan :=
  { pending := (Lexer.ofSource s).answers.map fun (lexed, after) =>
      { lexed
        linesRead := after.stream.linesSeen
        log := match lexed with
          | .ok token => if traced then [Token.scanned token] else []
          | .error _ => [] }
    linesAtEnd := s.reading.lines.length }

end FormulaCompiler
