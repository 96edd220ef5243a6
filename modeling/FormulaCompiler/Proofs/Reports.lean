import FormulaCompiler.Proofs.Diagnostics
import FormulaCompiler.Proofs.Outcome
import FormulaCompiler.Proofs.Parser.Alike

/-!
# What reports point at

A source that can be read but not compiled is reported with a block for each error, and each block quotes the line of
its error and underlines what is wrong in it (`Shows`): the character that an error of the lexer stands at, or else the
lexeme of the token that the parser blames (`Blames`). Main statement: `report_shows`. Where a place is too wide for the
underline to be formatted, the report breaks off, as it does behind more than 65535 blanks (`whole_indented`).
-/

namespace FormulaCompiler

open Lexer (tokensOf errorsOf)
open MaximalMunch (Reaches Offends)

/-! ### Blocks -/

/-- What the block of a problem shows of a source. Of a source without lines it shows nothing. -/
inductive Shows (s : Source) (kind : String) : Spanned Problem → List ReportLine → Prop where
  | nothing {problem : Spanned Problem} (hlines : s.reading.lines = []) :
      Shows s kind problem
        [{ text := kind ++ ": " ++ problem.value.message }, { text := " --> " ++ problem.span.text }, { text := "" }]
  /-- The character that a lexeme cannot go on with, or the column behind the line. -/
  | character {error : LexError} {index : Nat} {line : String} {before taken rest : List Char}
      (hline : s.reading.lines[index]? = some line) (hsplit : line.toList = before ++ (taken ++ rest))
      (hreaches : Reaches line.toList (taken ++ rest)) (hoffends : Offends error taken rest)
      (hlaid : laidOut (before ++ taken) <+: laidOut line.toList) {problem : Spanned Problem}
      (hproblem : problem = ⟨.lexical error, .single s.name (Position.across ⟨index + 1, 1⟩ (before ++ taken))⟩) :
      Shows s kind problem (Diagnostics.quoting kind problem (index + 1) line (laidOut (before ++ taken)).length 1)
  /-- The lexeme of a token. -/
  | lexeme {error : SyntaxError} {token : Spanned Token} {index : Nat} {line : String} {before lexeme rest : List Char}
      (htoken : token ∈ tokensOf (Lexer.ofSource s).items) (hline : s.reading.lines[index]? = some line)
      (hsplit : line.toList = before ++ (lexeme ++ rest)) (hlexeme : MaximalMunch.scanLine lexeme = [.ok token.value])
      (hstart : token.span.start = Position.across ⟨index + 1, 1⟩ before)
      (hlaid : laidOut before ++ lexeme <+: laidOut line.toList) {problem : Spanned Problem}
      (hproblem : problem = ⟨.grammatical error, token.span⟩) :
      Shows s kind problem (Diagnostics.quoting kind problem (index + 1) line (laidOut before).length lexeme.length)
  /-- The first column of a source without tokens. -/
  | start {error : SyntaxError} {line : String} (htokens : tokensOf (Lexer.ofSource s).items = [])
      (hline : s.reading.lines[0]? = some line) {problem : Spanned Problem}
      (hproblem : problem = ⟨.grammatical error, .first s.name⟩) :
      Shows s kind problem (Diagnostics.quoting kind problem 1 line 0 1)

/-- Whether some lines show what is wrong, and can all be formatted just if its place is narrow. -/
def ShowsNarrow (s : Source) (kind : String) (problem : Spanned Problem) (block : List ReportLine) : Prop :=
  Shows s kind problem block ∧ ((∀ row ∈ block, row.fits = true) ↔ problem.span.Narrow)

variable {s : Source} {kind : String}

/-- An error of the lexer is shown at the character that offends. -/
theorem shows_lexical (hreadable : s.reading.failure = none) {error : Spanned LexError}
    (hmem : error ∈ errorsOf (Lexer.ofSource s).items) :
    ShowsNarrow s kind ⟨.lexical error.value, error.span⟩
      (Diagnostics.block kind s.reading.lines ⟨.lexical error.value, error.span⟩) := by
  obtain ⟨index, line, block, hline, -, hunbroken, htiles, hblock⟩ :=
    (Lexer.tilesLines_ofSource hreadable).exists_block_of_mem (Lexer.mem_errorsOf.1 hmem)
  obtain ⟨before, taken, rest, hsplit, hreaches, hoffends, hspan⟩ := htiles.exists_offence hblock
  rw [Nat.add_comm] at hspan
  have hfront : '\n' ∉ before ++ taken := fun hmem =>
    hunbroken (by rw [hsplit, ← List.append_assoc]; exact List.mem_append_left _ hmem)
  have hlaid : laidOut (before ++ taken) <+: laidOut line.toList := by
    rw [hsplit, ← List.append_assoc]
    exact laidOut_prefix _ _
  have hhere := across_eq_of_laidOut (index + 1) hfront
  have hstart : error.span.start = ⟨index + 1, (laidOut (before ++ taken)).length + 1⟩ := by rw [hspan]; exact hhere
  have hstop : error.span.stop = ⟨index + 1, (laidOut (before ++ taken)).length + 1 + 1⟩ := by
    rw [hspan]
    exact congrArg Position.advance hhere
  refine ⟨?_, Diagnostics.fits_of_within kind hline hstart hstop Nat.zero_lt_one⟩
  rw [Diagnostics.block_of_within kind hline hstart hstop Nat.zero_lt_one]
  exact .character hline hsplit hreaches hoffends hlaid (congrArg _ hspan)

/-- An error in the place of a token is shown at the lexeme of the token. -/
theorem shows_token (hreadable : s.reading.failure = none) {error : SyntaxError} {token : Spanned Token}
    (hmem : token ∈ tokensOf (Lexer.ofSource s).items) :
    ShowsNarrow s kind ⟨.grammatical error, token.span⟩
      (Diagnostics.block kind s.reading.lines ⟨.grammatical error, token.span⟩) := by
  obtain ⟨index, line, block, hline, -, hunbroken, htiles, hblock⟩ :=
    (Lexer.tilesLines_ofSource hreadable).exists_block_of_mem (Lexer.mem_tokensOf.1 hmem)
  obtain ⟨before, lexeme, rest, hsplit, hne, hblanks, hlexeme, hspan⟩ := htiles.exists_lexeme hblock
  rw [Nat.add_comm] at hspan
  have hfront : '\n' ∉ before := fun hmem => hunbroken (by rw [hsplit]; exact List.mem_append_left _ hmem)
  have htab : '\t' ∉ lexeme := fun hmem => hblanks _ hmem (by decide)
  have hlaid : laidOut before ++ lexeme <+: laidOut line.toList := by
    rw [hsplit]
    exact laidOut_append_prefix htab rest
  have hhere := across_eq_of_laidOut (index + 1) hfront
  have hstart : token.span.start = ⟨index + 1, (laidOut before).length + 1⟩ := by rw [hspan]; exact hhere
  have hstop : token.span.stop = ⟨index + 1, (laidOut before).length + 1 + lexeme.length⟩ := by
    rw [hspan]
    exact congrArg (Position.right · _) hhere
  refine ⟨?_, Diagnostics.fits_of_within kind hline hstart hstop (List.length_pos_iff.2 hne)⟩
  rw [Diagnostics.block_of_within kind hline hstart hstop (List.length_pos_iff.2 hne)]
  exact .lexeme hmem hline hsplit hlexeme (congrArg Span.start hspan) hlaid rfl

/-- An error in a source without tokens is shown at its start. -/
theorem shows_start {error : SyntaxError} (htokens : tokensOf (Lexer.ofSource s).items = []) :
    ShowsNarrow s kind ⟨.grammatical error, .first s.name⟩
      (Diagnostics.block kind s.reading.lines ⟨.grammatical error, .first s.name⟩) := by
  cases hlines : s.reading.lines with
  | nil =>
      rw [Diagnostics.block_of_unread]
      refine ⟨.nothing hlines, iff_of_true ?_ ?_⟩
      · simp [ReportLine.fits]
      · have hdigits : (toString 1).length ≤ widthLimit := by decide
        exact ⟨hdigits, Nat.zero_le _, Nat.le_of_ble_eq_true rfl⟩
  | cons line lines =>
      have hline : (line :: lines)[0]? = some line := rfl
      refine ⟨?_, Diagnostics.fits_of_within kind hline rfl rfl Nat.zero_lt_one⟩
      rw [Diagnostics.block_of_within kind hline rfl rfl Nat.zero_lt_one]
      exact .start htokens (hlines ▸ hline) rfl

/-- The lines of a report whose problems are shown. -/
theorem lines_of_shows {d : Diagnostics} (hne : d.problems ≠ [])
    (hshows : ∀ problem ∈ d.problems, ShowsNarrow s d.kind problem (Diagnostics.block d.kind s.reading.lines problem)) :
    ∃ blocks, d.lines s.reading.lines = blocks.flatten ++ [Diagnostics.footer blocks.length] ∧
      List.Forall₂ (Shows s d.kind) d.problems blocks ∧
      (d.whole s.reading.lines = true ↔ ∀ problem ∈ d.problems, problem.span.Narrow) := by
  refine ⟨d.problems.map (Diagnostics.block d.kind s.reading.lines), ?_, ?_, ?_⟩
  · rw [List.length_map]
    exact Diagnostics.lines_eq hne s.reading.lines
  · rw [List.forall₂_map_right_iff, List.forall₂_same]
    exact fun problem hmem => (hshows problem hmem).1
  · rw [Diagnostics.whole_iff hne]
    exact forall₂_congr fun problem hmem => (hshows problem hmem).2

/-! ### Blame -/

theorem SyntaxError.AtEnd.not_atToken {error : SyntaxError} (h : error.AtEnd) : ¬ error.AtToken := by
  cases error with
  | unexpectedEnd => exact not_false
  | missingToken expected => exact not_false
  | _ => exact h.elim

namespace Parser

variable {start : Span} {tokens : List (Spanned Token)} {traced : Bool} {log : Log} {error : Spanned SyntaxError}

/-- Which token an error is about: one of those that have been scanned, and which of them if it is not about a limit. -/
structure Blames (start : Span) (tokens : List (Spanned Token)) (error : Spanned SyntaxError) : Prop where
  place : (tokens = [] ∧ error.span = start) ∨ ∃ token ∈ tokens, error.span = token.span
  /-- At the end of the tokens the last one is blamed. -/
  atEnd (h : error.value.AtEnd) : error.span = (tokens.getLast?.map (·.span)).getD start
  /-- A token that cannot follow is blamed itself. -/
  atToken (h : error.value.AtToken) : ∃ before blamed after, tokens = before ++ blamed :: after ∧
    error.span = blamed.span ∧ BeginsSentence (valuesOf before)

/-- The likeness that knows some places, and under which nothing is like anything but itself. -/
def likenessAt (places : Span → Prop) : Likeness := ⟨Eq, Eq, fun a b => a = b ∧ places a, fun h => congrArg _ h⟩

theorem likenessAt_placed {places : Span → Prop} {token : Spanned Token} (h : places token.span) :
    (likenessAt places).Placed token token := by
  refine ⟨?_, rfl, h⟩
  cases token.value with
  | identifier name => exact .identifier rfl
  | keyword word => exact .keyword word
  | number value => exact .number rfl
  | symbol mark => exact .symbol mark

/-- An error stands in the place of a token, unless there is none. -/
theorem place_of_parse (hparse : (parse start tokens traced log).1 = .error error) :
    (tokens = [] ∧ error.span = start) ∨ ∃ token ∈ tokens, error.span = token.span := by
  have htokens : List.Forall₂
      (likenessAt fun span => (tokens = [] ∧ span = start) ∨ ∃ token ∈ tokens, span = token.span).Placed tokens tokens :=
    List.forall₂_same.2 fun token hmem => likenessAt_placed (.inr ⟨token, hmem, rfl⟩)
  have hlike := parse_alike htokens (fun hempty => ⟨rfl, .inl ⟨hempty, rfl⟩⟩) traced traced log log
  rw [hparse] at hlike
  cases hlike with
  | error hvalue hspan => exact hspan.2

theorem blames_of_parse (hnamed : ∀ token ∈ tokens, token.value.Named)
    (hparse : (parse start tokens traced log).1 = .error error) : Blames start tokens error := by
  have hplace := place_of_parse hparse
  rcases error_of_parse hnamed hparse with ⟨limit, hlimit⟩ | ⟨wanted, before, after, rfl, hbegins, rfl⟩
  · obtain ⟨value, span⟩ := error
    obtain rfl : value = .nestingTooDeep limit := hlimit
    exact ⟨hplace, False.elim, False.elim⟩
  · cases after with
    | nil =>
        refine ⟨hplace, fun _ => ?_, fun h => absurd h wanted.error_atEnd.not_atToken⟩
        rw [List.append_nil]
        rfl
    | cons blamed after =>
        have hat : (wanted.error (some blamed.value)).AtToken := wanted.error_atToken blamed.value
        exact ⟨hplace, fun h => absurd hat h.not_atToken, fun _ => ⟨before, blamed, after, rfl, rfl, hbegins⟩⟩

variable (s : Source) (scanning parsing : Bool)

/-- What is reported of a source that can be read: the errors of the lexer, or else one error of the parser. -/
theorem diagnostics_of_rejected (hreadable : s.reading.failure = none)
    (hrejected : ∀ node, (engine parsing (.first s.name) (Lexer.scan scanning s)).1 ≠ .ok node) :
    ∃ d, (engine parsing (.first s.name) (Lexer.scan scanning s)).1 = .error (.invalid d) ∧
      (errorsOf (Lexer.ofSource s).items ≠ [] →
        d = .ofLexErrors "Lexical error" (errorsOf (Lexer.ofSource s).items)) ∧
      (errorsOf (Lexer.ofSource s).items = [] →
        ∃ error, d = .ofSyntaxError "Syntax error" error ∧
          Blames (.first s.name) (tokensOf (Lexer.ofSource s).items) error) := by
  by_cases herrors : errorsOf (Lexer.ofSource s).items = []
  · obtain ⟨node, htree⟩ | ⟨log, error, hparse, hengine⟩ := tree_or_error_of_tokens s (.first s.name) scanning parsing herrors
    · exact absurd htree (hrejected node)
    · have hblames := blames_of_parse (fun token => named_of_mem_tokensOf s) hparse
      exact ⟨_, hengine, fun h => absurd herrors h, fun _ => ⟨error, rfl, hblames⟩⟩
  · exact ⟨_, engine_of_readable s _ scanning parsing hreadable herrors, fun _ => rfl, fun h => absurd h herrors⟩

/-- Whatever is reported is shown. -/
theorem shows_of_invalid {d : Diagnostics}
    (h : (engine parsing (.first s.name) (Lexer.scan scanning s)).1 = .error (.invalid d)) :
    d.problems ≠ [] ∧
      ∀ problem ∈ d.problems, ShowsNarrow s d.kind problem (Diagnostics.block d.kind s.reading.lines problem) := by
  have hreadable := readable_of_invalid s _ scanning parsing h
  obtain ⟨d', hd', hlexical, hgrammatical⟩ := diagnostics_of_rejected s scanning parsing hreadable (by simp [h])
  cases hd'.symm.trans h
  by_cases herrors : errorsOf (Lexer.ofSource s).items = []
  · obtain ⟨error, rfl, hblames⟩ := hgrammatical herrors
    refine ⟨List.cons_ne_nil _ _, List.forall_mem_singleton.2 ?_⟩
    rcases hblames.place with ⟨hempty, hstart⟩ | ⟨token, hmem, htoken⟩
    · rw [hstart]
      exact shows_start hempty
    · rw [htoken]
      exact shows_token hreadable hmem
  · obtain rfl := hlexical herrors
    refine ⟨mt List.map_eq_nil_iff.1 herrors, ?_⟩
    rw [Diagnostics.ofLexErrors, List.forall_mem_map]
    exact fun error hmem => shows_lexical hreadable hmem

/-- **A report points at what is wrong**, as far as it comes: it has a block for each error and a footer, and comes whole
just if the places of all errors are narrow. Otherwise it breaks off, and the parse with it, in front of the first line
that is too wide. The numbers of a source of fewer than `2 ^ 30` characters are words of 32 bits
(`Source.across?_delivered`), so what is too wide there stands behind or covers more than 65535 columns. -/
theorem report_shows (hreadable : s.reading.failure = none)
    (hrejected : ∀ node, (engine parsing (.first s.name) (Lexer.scan scanning s)).1 ≠ .ok node) :
    ∃ d blocks, (engine parsing (.first s.name) (Lexer.scan scanning s)).1 = .error (.invalid d) ∧
      (let read := s.reading.lines.take (engine parsing (.first s.name) (Lexer.scan scanning s)).2.linesRead
      ReportLine.Written (blocks.flatten ++ [Diagnostics.footer blocks.length]) (d.text read) (d.whole read) ∧
        (d.whole read = true ↔ ∀ problem ∈ d.problems, problem.span.Narrow)) ∧
      List.Forall₂ (Shows s d.kind) d.problems blocks ∧
      (errorsOf (Lexer.ofSource s).items ≠ [] →
        d = .ofLexErrors "Lexical error" (errorsOf (Lexer.ofSource s).items)) ∧
      (errorsOf (Lexer.ofSource s).items = [] →
        ∃ error, d = .ofSyntaxError "Syntax error" error ∧
          Blames (.first s.name) (tokensOf (Lexer.ofSource s).items) error) := by
  obtain ⟨d, hengine, hlexical, hgrammatical⟩ := diagnostics_of_rejected s scanning parsing hreadable hrejected
  obtain ⟨hne, hshows⟩ := shows_of_invalid s scanning parsing hengine
  obtain ⟨blocks, hlines, hblocks, hwhole⟩ := lines_of_shows hne hshows
  rw [linesRead_engine, List.take_length]
  exact ⟨d, blocks, hengine, ⟨hlines ▸ Diagnostics.written_text d _, hwhole⟩, hblocks, hlexical, hgrammatical⟩

/-- A number without its fraction between two tabs, and on the next line a character that begins no token. -/
def halved : Source := Source.ofText "halved" "\t1.\ta\n$"

theorem errorsOf_halved : errorsOf (Lexer.ofSource halved).items =
    [⟨.missingFraction, .single "halved" ⟨1, 7⟩⟩, ⟨.badChar '$', .single "halved" ⟨2, 1⟩⟩] := by
  have hsource : Lexer.ofSource halved =
      Lexer.inFrontOf "halved" ['\t', '1', '.', '\t', 'a', '\n', '$', '\n'] ⟨1, 1⟩ false := by
    rw [Lexer.ofSource, CharStream.ofSource, halved, Source.reading_ofText]
    rfl
  have hfirst : (Lexer.ofSource halved).next? = (some (.error ⟨.missingFraction, .single "halved" ⟨1, 7⟩⟩),
      Lexer.inFrontOf "halved" ['\t', 'a', '\n', '$', '\n'] ⟨1, 7⟩ true) := by
    rw [hsource]
    rfl
  have hsecond : (Lexer.inFrontOf "halved" ['\t', 'a', '\n', '$', '\n'] ⟨1, 7⟩ true).next? =
      (some (.error ⟨.badChar '$', .single "halved" ⟨2, 1⟩⟩), Lexer.inFrontOf "halved" ['$', '\n'] ⟨2, 1⟩ true) := rfl
  have hlast : (Lexer.inFrontOf "halved" ['$', '\n'] ⟨2, 1⟩ true).items = [] := Lexer.items_of_none rfl
  rw [Lexer.items_of_some hfirst, Lexer.items_of_some hsecond, hlast]
  rfl

/-- The first caret stands under the second tab. -/
theorem report_shows_halved :
    halved.reading.failure = none ∧ (∀ node, (engine false (.first "halved") (Lexer.scan false halved)).1 ≠ .ok node) ∧
    ∃ first second,
      (Diagnostics.ofLexErrors "Lexical error" (errorsOf (Lexer.ofSource halved).items)).text halved.reading.lines =
        ReportLine.joined (first ++ second ++ [{ text := "Build failed with 2 errors" }]) ∧
      Shows halved "Lexical error" ⟨.lexical .missingFraction, .single "halved" ⟨1, 7⟩⟩ first ∧
      Shows halved "Lexical error" ⟨.lexical (.badChar '$'), .single "halved" ⟨2, 1⟩⟩ second := by
  have hreadable : halved.reading.failure = none := by rw [halved, Source.reading_ofText]
  have herrors : errorsOf (Lexer.ofSource halved).items ≠ [] := by
    rw [errorsOf_halved]
    exact List.cons_ne_nil _ _
  have hrejected : ∀ node, (engine false (.first "halved") (Lexer.scan false halved)).1 ≠ .ok node := by
    intro node htree
    cases htree.symm.trans (engine_of_readable halved _ false false hreadable herrors)
  obtain ⟨d, blocks, -, ⟨hwritten, hwhole⟩, hblocks, hlexical, -⟩ := report_shows halved false false hreadable hrejected
  rw [linesRead_engine, List.take_length] at hwritten hwhole
  obtain rfl := hlexical herrors
  rw [errorsOf_halved] at hblocks hwritten hwhole ⊢
  have hnarrow : ∀ problem ∈ [(⟨.lexical .missingFraction, .single "halved" ⟨1, 7⟩⟩ : Spanned Problem),
      ⟨.lexical (.badChar '$'), .single "halved" ⟨2, 1⟩⟩], problem.span.Narrow := by
    simp only [List.forall_mem_cons, Span.narrow_iff]
    decide
  rw [hwhole.2 hnarrow] at hwritten
  cases hblocks with
  | cons hfirst hrest =>
      cases hrest with
      | cons hsecond hrest =>
          cases hrest
          refine ⟨hreadable, hrejected, _, _, ?_, hfirst, hsecond⟩
          have hfooter : Diagnostics.footer 2 = { text := "Build failed with 2 errors" } := by decide +kernel
          cases hwritten with
          | whole hfits htext =>
              rw [htext, List.flatten_cons, List.flatten_cons, List.flatten_nil, List.append_nil, ← hfooter]
              rfl

end Parser

/-! ### Wide places -/

/-- A character that begins no token, behind some blanks. -/
def indented (count : Nat) : Source := Source.ofText "indented" (String.ofList (List.replicate count ' ' ++ ['$']))

theorem next?_blanks (source : String) (rest : List Char) (line column count : Nat) :
    (Lexer.inFrontOf source (List.replicate count ' ' ++ rest) ⟨line, column⟩ false).next? =
      (Lexer.inFrontOf source rest ⟨line, column + count⟩ false).next? := by
  induction count generalizing column with
  | zero => rfl
  | succ count ih =>
      have hafter : (⟨line, column⟩ : Position).after ' ' = ⟨line, column + 1⟩ := rfl
      rw [List.replicate_succ, List.cons_append, Lexer.next?_blank (by decide), hafter, ih, Nat.add_right_comm]
      rfl

theorem reading_indented (count : Nat) :
    (indented count).reading = ⟨[String.ofList (List.replicate count ' ' ++ ['$'])], none⟩ := by
  apply Source.reading_ofText_line
  · simp
  · intro c hmem
    rw [String.toList_ofList, List.mem_append, List.mem_singleton] at hmem
    rcases hmem with hmem | rfl
    · rw [List.eq_of_mem_replicate hmem]
      decide
    · decide

theorem errorsOf_indented (count : Nat) : errorsOf (Lexer.ofSource (indented count)).items =
    [⟨.badChar '$', .single "indented" ⟨1, 1 + count⟩⟩] := by
  have hsource : Lexer.ofSource (indented count) =
      Lexer.inFrontOf "indented" (List.replicate count ' ' ++ ['$', '\n']) ⟨1, 1⟩ false := by
    rw [Lexer.ofSource, CharStream.ofSource, reading_indented]
    simp [Reading.chars, Lexer.inFrontOf, indented, Source.ofText]
  have hfirst : (Lexer.ofSource (indented count)).next? =
      (some (.error ⟨.badChar '$', .single "indented" ⟨1, 1 + count⟩⟩),
        Lexer.inFrontOf "indented" ['$', '\n'] ⟨1, 1 + count⟩ true) := by
    rw [hsource, next?_blanks]
    rfl
  have hlast : (Lexer.inFrontOf "indented" ['$', '\n'] ⟨1, 1 + count⟩ true).items = [] := Lexer.items_of_none rfl
  rw [Lexer.items_of_some hfirst, hlast]
  rfl

/-- A character that offends is reported as far as the columns in front of it can be formatted. -/
theorem whole_indented (count : Nat) :
    (Diagnostics.ofLexErrors "Lexical error" (errorsOf (Lexer.ofSource (indented count)).items)).whole
      (indented count).reading.lines = true ↔ count ≤ widthLimit := by
  have hreadable : (indented count).reading.failure = none := by rw [reading_indented]
  obtain ⟨-, -, -, hwhole⟩ := lines_of_shows
    (d := .ofLexErrors "Lexical error" (errorsOf (Lexer.ofSource (indented count)).items))
    (by rw [errorsOf_indented]; exact List.cons_ne_nil _ _)
    (List.forall_mem_map.2 fun error hmem => shows_lexical hreadable hmem)
  rw [hwhole, errorsOf_indented, Diagnostics.ofLexErrors, List.map_singleton, List.forall_mem_singleton, Span.narrow_iff]
  have hskip : 1 + count - 1 = count := Nat.add_sub_cancel_left 1 count
  have hwidth : 1 + count + 1 - (1 + count) ≤ widthLimit := by
    rw [Nat.add_sub_cancel_left]
    decide
  show (toString 1).length ≤ widthLimit ∧ 1 + count - 1 ≤ widthLimit ∧ 1 + count + 1 - (1 + count) ≤ widthLimit ↔ _
  rw [hskip, and_iff_left hwidth]
  exact and_iff_right (by decide)

end FormulaCompiler
