import FormulaCompiler.Proofs.Lexer.Offence
import FormulaCompiler.Proofs.Lexer.Places

/-!
# Tokens tile their source

Main statement: in a source that can be read every token stands in one line and spans the columns of its lexeme,
the tokens come one behind the other, and in a line without an error whatever is in no token is a blank or in
the comment that ends the line (`tokens_tile`). `Tiles` says how the answers for one line and its characters fit
together; the rest is read off it.
-/

namespace FormulaCompiler

namespace Lexer

open Position (across placed)

variable {source : String} {here : Position} {line rest more : List Char} {answer : Lexed} {after : Lexer}
  {block : List Lexed}

/-! ### Tiles -/

/-- The answers for a line that begins at a position. Their lexemes, the blanks between them and what is dropped
are the line. -/
inductive Tiles (source : String) : Position → List Char → List Lexed → Prop where
  | done (here : Position) : Tiles source here [] []
  | blank {here : Position} {c : Char} {rest : List Char} {items : List Lexed} (hblank : c ∈ MaximalMunch.blanks)
      (h : Tiles source (here.after c) rest items) : Tiles source here (c :: rest) items
  | comment (here : Position) (rest : List Char) : Tiles source here ('/' :: '/' :: rest) []
  | token {here : Position} {lexeme rest : List Char} {token : Token} {items : List Lexed} (hne : lexeme ≠ [])
      (hblanks : ∀ c ∈ lexeme, c ∉ MaximalMunch.blanks) (hscan : MaximalMunch.scanLine lexeme = [.ok token])
      (hreaches : MaximalMunch.Reaches (lexeme ++ rest) rest) (h : Tiles source (here.right lexeme.length) rest items) :
      Tiles source here (lexeme ++ rest) (.ok ⟨token, source, here, here.right lexeme.length⟩ :: items)
  | error {here : Position} {taken : List Char} (rest : List Char) (error : LexError)
      (hblanks : ∀ c ∈ taken, c ∉ MaximalMunch.blanks) (hoffends : MaximalMunch.Offends error taken rest) :
      Tiles source here (taken ++ rest) [.error ⟨error, Span.single source (here.right taken.length)⟩]

theorem exists_tiles (line : List Char) (here : Position) (hline : '\n' ∉ line) :
    ∃ block, Tiles source here line block ∧ (inFrontOf source (line ++ '\n' :: more) here false).items =
      block ++ (inFrontOf source more here.newline false).items := by
  induction line using MaximalMunch.scanLine.induct generalizing here with
  | case1 => exact ⟨[], .done here, items_congr (next?_blank (by decide))⟩
  | case2 c rest hblank ih =>
      rw [List.mem_cons, not_or] at hline
      obtain ⟨block, htiles, hitems⟩ := ih (here.after c) hline.2
      rw [Position.newline_after (Ne.symm hline.1)] at hitems
      exact ⟨block, .blank hblank htiles, (items_congr (next?_blank hblank)).trans hitems⟩
  | case3 c rest hblank hcomment =>
      obtain ⟨rfl, hhead⟩ := hcomment
      obtain ⟨dropped, rfl⟩ := List.head?_eq_some_iff.1 hhead
      have hdropped : '\n' ∉ dropped := List.not_mem_of_not_mem_cons (List.not_mem_of_not_mem_cons hline)
      exact ⟨[], .comment here dropped, items_congr (next?_comment hdropped)⟩
  | case4 c rest hblank hcomment token left hlexeme ih =>
      obtain ⟨answer, taken, hnext, hvalue, htaken, hblanks, hends⟩ :=
        next?_lexeme source here more hblank hcomment
      rw [hlexeme] at hnext hvalue htaken
      cases taken with
      | nil =>
          have hlength := (MaximalMunch.suffix_of_lexeme hlexeme).length_le
          rw [← show c :: rest = left from htaken] at hlength
          exact absurd hlength (Nat.not_succ_le_self _)
      | cons d others =>
          obtain ⟨rfl, hrest⟩ := List.cons.inj htaken
          obtain ⟨block, htiles, hitems⟩ := ih (here.right (c :: others).length) fun hmem =>
            hline (by rw [htaken]; exact List.mem_append_right _ hmem)
          have hscan := MaximalMunch.scanLine_alone hblank hcomment hrest hlexeme
          have hreaches := MaximalMunch.Reaches.token hblank hcomment hlexeme (.here left)
          cases answer with
          | error error => cases hvalue
          | ok answered =>
              obtain ⟨value, span⟩ := answered
              cases hvalue
              cases hends
              have hline : Tiles source here (c :: rest)
                  (.ok ⟨value, source, here, here.right (c :: others).length⟩ :: block) := by
                rw [htaken] at hreaches ⊢
                exact .token (List.cons_ne_nil c others) hblanks hscan hreaches htiles
              exact ⟨_, hline, (items_of_some hnext).trans (congrArg (_ :: ·) hitems)⟩
  | case5 c rest hblank hcomment error left hlexeme =>
      obtain ⟨answer, taken, hnext, hvalue, htaken, hblanks, hends⟩ :=
        next?_lexeme source here more hblank hcomment
      rw [hlexeme] at hnext hvalue htaken
      have hleft : '\n' ∉ left := fun hmem => hline (by rw [htaken]; exact List.mem_append_right _ hmem)
      cases answer with
      | ok token => cases hvalue
      | error answered =>
          obtain ⟨value, span⟩ := answered
          cases hvalue
          cases hends
          have hline : Tiles source here (c :: rest) [.error ⟨value, Span.single source (here.right taken.length)⟩] := by
            rw [htaken]
            exact .error left value hblanks (MaximalMunch.offends_of_lexeme hblank hlexeme htaken)
          exact ⟨_, hline, (items_of_some hnext).trans (congrArg (_ :: ·) (items_congr (next?_skipping hleft)))⟩

theorem across_of_blankless {chars : List Char} (h : ∀ c ∈ chars, c ∉ MaximalMunch.blanks) :
    here.across chars = here.right chars.length :=
  Position.across_eq_right (fun hmem => h _ hmem (by decide)) (fun hmem => h _ hmem (by decide))

/-- The lexeme of a token is a part of its line, and the token spans the columns of the lexeme. -/
theorem Tiles.exists_lexeme (h : Tiles source here line block) {token : Spanned Token} (hmem : .ok token ∈ block) :
    ∃ before lexeme rest, line = before ++ (lexeme ++ rest) ∧ lexeme ≠ [] ∧
      (∀ c ∈ lexeme, c ∉ MaximalMunch.blanks) ∧ MaximalMunch.scanLine lexeme = [.ok token.value] ∧
      token.span = ⟨source, here.across before, (here.across before).right lexeme.length⟩ := by
  induction h with
  | done here => exact absurd hmem List.not_mem_nil
  | @blank here c rest items hblank h ih =>
      obtain ⟨before, lexeme, rest, rfl, hne, hblanks, hscan, hspan⟩ := ih hmem
      exact ⟨c :: before, lexeme, rest, rfl, hne, hblanks, hscan, hspan⟩
  | comment here rest => exact absurd hmem List.not_mem_nil
  | @token here lexeme rest first items hne hblanks hscan hreaches h ih =>
      obtain hmem | hmem := List.mem_cons.1 hmem
      · cases hmem
        exact ⟨[], lexeme, rest, rfl, hne, hblanks, hscan, rfl⟩
      · obtain ⟨before, later, rest, rfl, hne', hblanks', hscan', hspan⟩ := ih hmem
        refine ⟨lexeme ++ before, later, rest, (List.append_assoc _ _ _).symm, hne', hblanks', hscan', ?_⟩
        rw [Position.across_append, across_of_blankless hblanks]
        exact hspan
  | error rest error hblanks hoffends => cases List.mem_singleton.1 hmem

/-- An error stands where a lexeme of the line offends, and the line is scanned up to that lexeme. -/
theorem Tiles.exists_offence (h : Tiles source here line block) {error : Spanned LexError} (hmem : .error error ∈ block) :
    ∃ before taken rest, line = before ++ (taken ++ rest) ∧ MaximalMunch.Reaches line (taken ++ rest) ∧
      MaximalMunch.Offends error.value taken rest ∧ error.span = Span.single source (here.across (before ++ taken)) := by
  induction h with
  | done here => exact absurd hmem List.not_mem_nil
  | @blank here c rest items hblank h ih =>
      obtain ⟨before, taken, rest, rfl, hreaches, hoffends, hspan⟩ := ih hmem
      exact ⟨c :: before, taken, rest, rfl, .blank hblank hreaches, hoffends, hspan⟩
  | comment here rest => exact absurd hmem List.not_mem_nil
  | @token here lexeme rest first items hne hblanks hscan hreaches h ih =>
      obtain hmem | hmem := List.mem_cons.1 hmem
      · cases hmem
      · obtain ⟨before, taken, left, rfl, hlater, hoffends, hspan⟩ := ih hmem
        refine ⟨lexeme ++ before, taken, left, (List.append_assoc _ _ _).symm, hreaches.trans hlater, hoffends, ?_⟩
        rw [List.append_assoc, Position.across_append, across_of_blankless hblanks]
        exact hspan
  | @error here taken rest error hblanks hoffends =>
      cases List.mem_singleton.1 hmem
      refine ⟨[], taken, rest, rfl, .here _, hoffends, ?_⟩
      rw [List.nil_append, across_of_blankless hblanks]

/-- The answers for a line stand on it, not before where it begins. -/
theorem Tiles.start_of_mem (h : Tiles source here line block) (hline : '\n' ∉ line) {item : Lexed}
    (hmem : item ∈ block) :
    (placeOf item).start.line = here.line ∧ (placeOf item).stop.line = here.line ∧
      here ≤ (placeOf item).start ∧ (placeOf item).start < (placeOf item).stop := by
  induction h with
  | done here => exact absurd hmem List.not_mem_nil
  | @blank here c rest items hblank h ih =>
      rw [List.mem_cons, not_or] at hline
      have hafter : here < here.after c := Position.lt_after _ _
      obtain ⟨hstartLine, hstopLine, hle, hlt⟩ := ih hline.2 hmem
      rw [Position.after_line (Ne.symm hline.1)] at hstartLine hstopLine
      exact ⟨hstartLine, hstopLine, Position.le_trans (Position.le_of_lt hafter) hle, hlt⟩
  | comment here rest => exact absurd hmem List.not_mem_nil
  | @token here lexeme rest first items hne hblanks hscan hreaches h ih =>
      have hright : here < here.right lexeme.length := Position.lt_right (List.length_pos_iff.2 hne)
      obtain rfl | hmem := List.mem_cons.1 hmem
      · exact ⟨rfl, rfl, Position.le_refl here, hright⟩
      · obtain ⟨hstartLine, hstopLine, hle, hlt⟩ := ih (fun hmem => hline (List.mem_append_right _ hmem)) hmem
        exact ⟨hstartLine, hstopLine, Position.le_trans (Position.le_of_lt hright) hle, hlt⟩
  | @error here taken rest error hblanks hoffends =>
      rw [List.mem_singleton.1 hmem]
      exact ⟨rfl, rfl, .inr ⟨rfl, Nat.le_add_right _ _⟩, .inr ⟨rfl, Nat.lt_succ_self _⟩⟩

/-- How an answer stands to one that comes after it. Nothing more of a line is looked at after an error. -/
def Precedes (first second : Lexed) : Prop :=
  (placeOf first).stop ≤ (placeOf second).start ∧
    ∀ error, first = .error error → (placeOf first).start.line < (placeOf second).start.line

theorem Tiles.pairwise (h : Tiles source here line block) (hline : '\n' ∉ line) : block.Pairwise Precedes := by
  induction h with
  | done here => exact .nil
  | blank hblank h ih => exact ih (List.not_mem_of_not_mem_cons hline)
  | comment here rest => exact .nil
  | @token here lexeme rest first items hne hblanks hscan hreaches h ih =>
      have hrest : '\n' ∉ rest := fun hmem => hline (List.mem_append_right _ hmem)
      refine .cons ?_ (ih hrest)
      intro item hmem
      refine ⟨(h.start_of_mem hrest hmem).2.2.1, ?_⟩
      rintro error heq
      cases heq
  | error rest error hblanks hoffends => exact .cons (by simp) .nil

/-- Whether a position is in a token. -/
def Covered (items : List Lexed) (p : Position) : Prop := ∃ token, .ok token ∈ items ∧ token.span.Covers p

theorem Tiles.not_covered (h : Tiles source here line block) (hline : '\n' ∉ line) {p : Position} (hp : p < here) :
    ¬ Covered block p := by
  rintro ⟨token, hmem, hstart, -⟩
  have hplace : here ≤ token.span.start := (h.start_of_mem hline hmem).2.2.1
  exact Position.not_le.2 hp (Position.le_trans hplace hstart)

theorem covered_cons {first : Spanned Token} {p : Position} (h : first.span.stop ≤ p) :
    Covered (.ok first :: block) p ↔ Covered block p := by
  constructor
  · rintro ⟨token, hmem, hcovers⟩
    obtain heq | hmem := List.mem_cons.1 hmem
    · cases heq
      exact absurd hcovers.2 (Position.not_lt.2 h)
    · exact ⟨token, hmem, hcovers⟩
  · rintro ⟨token, hmem, hcovers⟩
    exact ⟨token, .tail _ hmem, hcovers⟩

/-- In a line without an error a character in front of the comment is in a token unless it is a blank, and no
character of the comment is. -/
theorem Tiles.exists_comment (h : Tiles source here line block) (hline : '\n' ∉ line)
    (hok : ∀ error, .error error ∉ block) :
    ∃ code comment, line = code ++ comment ∧ (comment = [] ∨ ['/', '/'] <+: comment) ∧
      (∀ c p, (c, p) ∈ here.placed code → (c ∈ MaximalMunch.blanks ↔ ¬ Covered block p)) ∧
      ∀ c p, (c, p) ∈ (here.across code).placed comment → ¬ Covered block p := by
  induction h with
  | done here => exact ⟨[], [], rfl, .inl rfl, by simp [Position.placed], by simp [Position.placed]⟩
  | @blank here c rest items hblank h ih =>
      rw [List.mem_cons, not_or] at hline
      obtain ⟨code, comment, rfl, hcomment, hcode, hnone⟩ := ih hline.2 hok
      refine ⟨c :: code, comment, rfl, hcomment, ?_, hnone⟩
      intro d p hmem
      obtain hmem | hmem := List.mem_cons.1 hmem
      · cases hmem
        exact iff_of_true hblank (h.not_covered hline.2 (Position.lt_after _ _))
      · exact hcode d p hmem
  | comment here rest =>
      refine ⟨[], '/' :: '/' :: rest, rfl, .inr ⟨rest, rfl⟩, by simp [Position.placed], ?_⟩
      rintro c p - ⟨token, hmem, -⟩
      exact absurd hmem List.not_mem_nil
  | @token here lexeme rest first items hne hblanks hscan hreaches h ih =>
      have hrest : '\n' ∉ rest := fun hmem => hline (List.mem_append_right _ hmem)
      obtain ⟨code, comment, rfl, hcomment, hcode, hnone⟩ := ih hrest fun error hmem => hok error (.tail _ hmem)
      have hstop : here.across lexeme = here.right lexeme.length := across_of_blankless hblanks
      refine ⟨lexeme ++ code, comment, (List.append_assoc _ _ _).symm, hcomment, ?_, ?_⟩
      · intro c p hmem
        rw [Position.placed_append, List.mem_append] at hmem
        obtain hmem | hmem := hmem
        · have hblank : c ∉ MaximalMunch.blanks := hblanks c (Position.mem_of_mem_placed hmem)
          have hlt := Position.lt_across_of_mem_placed hmem
          rw [hstop] at hlt
          exact iff_of_false hblank (not_not_intro ⟨_, .head _, Position.le_of_mem_placed hmem, hlt⟩)
        · rw [hstop] at hmem
          rw [covered_cons (Position.le_of_mem_placed hmem)]
          exact hcode c p hmem
      · intro c p hmem
        rw [Position.across_append, hstop] at hmem
        rw [covered_cons (Position.le_trans (Position.le_across _ _) (Position.le_of_mem_placed hmem))]
        exact hnone c p hmem
  | error rest error hblanks hoffends => exact absurd (List.mem_singleton.2 rfl) (hok _)

/-! ### Lines -/

/-- The answers for lines that follow each other, the first of them with a given number. -/
inductive TilesLines (source : String) : Nat → List String → List Lexed → Prop where
  | nil (number : Nat) : TilesLines source number [] []
  | cons {number : Nat} {line : String} {lines : List String} {block items : List Lexed}
      (hline : '\n' ∉ line.toList) (h : Tiles source ⟨number, 1⟩ line.toList block)
      (hlater : TilesLines source (number + 1) lines items) :
      TilesLines source number (line :: lines) (block ++ items)

variable {number : Nat} {lines : List String} {items : List Lexed} {item : Lexed}

theorem tilesLines_items (source : String) (number : Nat) (lines : List String)
    (hlines : ∀ line ∈ lines, '\n' ∉ line.toList) :
    TilesLines source number lines
      (inFrontOf source (lines.flatMap fun line => line.toList ++ ['\n']) ⟨number, 1⟩ false).items := by
  induction lines generalizing number with
  | nil =>
      rw [Lexer.items, List.flatMap_nil, answers_of_none rfl]
      exact .nil number
  | cons line lines ih =>
      rw [List.forall_mem_cons] at hlines
      rw [List.flatMap_cons, List.append_assoc, List.singleton_append]
      obtain ⟨block, htiles, hitems⟩ := exists_tiles line.toList ⟨number, 1⟩ hlines.1
      rw [hitems]
      exact .cons hlines.1 htiles (ih (number + 1) hlines.2)

theorem TilesLines.line_of_mem (h : TilesLines source number lines items) (hmem : item ∈ items) :
    ∃ index, index < lines.length ∧ (placeOf item).start.line = number + index := by
  induction h with
  | nil number => exact absurd hmem List.not_mem_nil
  | cons hline htiles hlater ih =>
      obtain hmem | hmem := List.mem_append.1 hmem
      · exact ⟨0, Nat.zero_lt_succ _, (htiles.start_of_mem hline hmem).1⟩
      · obtain ⟨index, hlength, hstart⟩ := ih hmem
        exact ⟨index + 1, Nat.succ_lt_succ hlength, by omega⟩

/-- The answers that stand on a line are those that tile it. -/
theorem TilesLines.exists_block (h : TilesLines source number lines items) {index : Nat} {line : String}
    (hindex : lines[index]? = some line) :
    '\n' ∉ line.toList ∧ ∃ block, Tiles source ⟨number + index, 1⟩ line.toList block ∧
      ∀ item, item ∈ block ↔ item ∈ items ∧ (placeOf item).start.line = number + index := by
  induction h generalizing index with
  | nil number => cases hindex
  | @cons number first lines block items hline htiles hlater ih =>
      cases index with
      | zero =>
          cases hindex
          refine ⟨hline, block, htiles, fun item => ⟨fun hmem => ?_, fun ⟨hmem, hstart⟩ => ?_⟩⟩
          · exact ⟨List.mem_append_left _ hmem, (htiles.start_of_mem hline hmem).1⟩
          · obtain hmem | hmem := List.mem_append.1 hmem
            · exact hmem
            · obtain ⟨index, -, hlater⟩ := hlater.line_of_mem hmem
              omega
      | succ index =>
          obtain ⟨hline', later, htiles', hlater'⟩ := ih hindex
          rw [Nat.add_right_comm number 1 index] at htiles' hlater'
          refine ⟨hline', later, htiles', fun item => (hlater' item).trans ⟨fun ⟨hmem, hstart⟩ => ?_, fun ⟨hmem, hstart⟩ => ?_⟩⟩
          · exact ⟨List.mem_append_right _ hmem, hstart⟩
          · obtain hmem | hmem := List.mem_append.1 hmem
            · have hfirst := (htiles.start_of_mem hline hmem).1
              simp only at hfirst
              omega
            · exact ⟨hmem, hstart⟩

/-- An answer stands on a line and is one of those that tile it. -/
theorem TilesLines.exists_block_of_mem (h : TilesLines source number lines items) (hmem : item ∈ items) :
    ∃ index line block, lines[index]? = some line ∧ (placeOf item).start.line = number + index ∧ '\n' ∉ line.toList ∧
      Tiles source ⟨number + index, 1⟩ line.toList block ∧ item ∈ block := by
  obtain ⟨index, hindex, hstart⟩ := h.line_of_mem hmem
  obtain ⟨hline, block, hblock, hmem_iff⟩ := h.exists_block (List.getElem?_eq_getElem hindex)
  exact ⟨index, _, block, List.getElem?_eq_getElem hindex, hstart, hline, hblock, (hmem_iff item).2 ⟨hmem, hstart⟩⟩

/-- A token ends on the line that it begins on, in a later column. -/
theorem TilesLines.stop_of_mem (h : TilesLines source number lines items) {token : Spanned Token}
    (hmem : .ok token ∈ items) :
    token.span.stop.line = token.span.start.line ∧ token.span.start < token.span.stop := by
  obtain ⟨index, line, block, -, hstart, hline, hblock, hmem⟩ := h.exists_block_of_mem hmem
  obtain ⟨-, hstop, -, hlt⟩ := hblock.start_of_mem hline hmem
  exact ⟨hstop.trans hstart.symm, hlt⟩

/-- A line without an error is tokens with blanks between them, and perhaps a comment behind them. -/
theorem TilesLines.exists_comment (h : TilesLines source number lines items) {index : Nat} {line : String}
    (hindex : lines[index]? = some line)
    (hnone : ∀ error, .error error ∈ items → error.span.start.line ≠ number + index) :
    ∃ code comment, line.toList = code ++ comment ∧ (comment = [] ∨ ['/', '/'] <+: comment) ∧
      (∀ c p, (c, p) ∈ placed ⟨number + index, 1⟩ code → (c ∈ MaximalMunch.blanks ↔ ¬ Covered items p)) ∧
      ∀ c p, (c, p) ∈ placed (across ⟨number + index, 1⟩ code) comment → ¬ Covered items p := by
  obtain ⟨hline, block, hblock, hmem_iff⟩ := h.exists_block hindex
  have hok : ∀ error, .error error ∉ block := fun error hmem =>
    hnone error ((hmem_iff _).1 hmem).1 ((hmem_iff _).1 hmem).2
  -- A token that covers a position of the line stands on it, so that it is one of those that tile it.
  have hcovered {p : Position} (hp : p.line = number + index) : Covered block p ↔ Covered items p := by
    constructor
    · rintro ⟨token, hmem, hcovers⟩
      exact ⟨token, ((hmem_iff _).1 hmem).1, hcovers⟩
    · rintro ⟨token, hmem, hstart, hstop⟩
      have hsame : token.span.stop.line = token.span.start.line := (h.stop_of_mem hmem).1
      rw [Position.le_iff] at hstart
      rw [Position.lt_iff] at hstop
      have hline : token.span.start.line = number + index := by omega
      exact ⟨token, (hmem_iff _).2 ⟨hmem, hline⟩, hstart, hstop⟩
  obtain ⟨code, comment, hsplit, hcomment, hcode, hrest⟩ := hblock.exists_comment hline hok
  rw [hsplit] at hline
  have hcodeLine : '\n' ∉ code := fun hmem => hline (List.mem_append_left _ hmem)
  have hcommentLine : '\n' ∉ comment := fun hmem => hline (List.mem_append_right _ hmem)
  refine ⟨code, comment, hsplit, hcomment, fun c p hmem => ?_, fun c p hmem => ?_⟩
  · rw [← hcovered (Position.line_of_mem_placed hcodeLine hmem)]
    exact hcode c p hmem
  · rw [← hcovered ((Position.line_of_mem_placed hcommentLine hmem).trans (Position.across_line hcodeLine))]
    exact hrest c p hmem

theorem TilesLines.pairwise (h : TilesLines source number lines items) : items.Pairwise Precedes := by
  induction h with
  | nil number => exact .nil
  | @cons number line lines block items hline htiles hlater ih =>
      rw [List.pairwise_append]
      refine ⟨htiles.pairwise hline, ih, fun first hfirst second hsecond => ?_⟩
      obtain ⟨hstart, hstop, -⟩ := htiles.start_of_mem hline hfirst
      obtain ⟨index, -, hline⟩ := hlater.line_of_mem hsecond
      simp only at hstart hstop
      exact ⟨.inl (by omega), fun _ _ => by omega⟩

/-! ### Sources -/

theorem tilesLines_ofSource {s : Source} (hreadable : s.reading.failure = none) :
    TilesLines s.name 1 s.reading.lines (ofSource s).items := by
  rw [ofSource_eq_inFrontOf hreadable]
  exact tilesLines_items s.name 1 s.reading.lines s.newline_notMem_lines

/-- The columns of a token in its line hold its lexeme, which the lexer on its own makes the token of again. -/
theorem Tiles.excerpt_of_mem (h : Tiles source ⟨number, 1⟩ line block) (hline : '\n' ∉ line) {token : Spanned Token}
    (hmem : .ok token ∈ block) :
    token.span.source = source ∧
      token.span.stop.column = token.span.start.column + (token.span.excerpt line).length ∧
      ∀ name, (ofSource (Source.ofText name (String.ofList (token.span.excerpt line)))).items.map unplaced =
        [.ok token.value] := by
  obtain ⟨before, lexeme, rest, rfl, hne, hblanks, hscan, hspan⟩ := h.exists_lexeme hmem
  have hbefore : '\n' ∉ before := fun hmem => hline (List.mem_append_left _ hmem)
  have hstart : token.span.start = across ⟨token.span.start.line, 1⟩ before := by
    rw [hspan]
    show across ⟨number, 1⟩ before = across ⟨(across ⟨number, 1⟩ before).line, 1⟩ before
    rw [Position.across_line hbefore]
  have hstop : token.span.stop = token.span.start.right lexeme.length := by rw [hspan]
  have hexcerpt : token.span.excerpt (before ++ (lexeme ++ rest)) = lexeme :=
    Span.excerpt_append hstart (hstop.trans (across_of_blankless hblanks).symm)
  rw [hexcerpt]
  refine ⟨by rw [hspan], by rw [hstop, Position.right_column], fun name => ?_⟩
  have hbreaks : ∀ c ∈ (String.ofList lexeme).toList, c ≠ '\r' ∧ c ≠ '\n' := by
    rw [String.toList_ofList]
    intro c hmem
    obtain ⟨hreturn, hbreak, -⟩ := ne_of_notMem_blanks (hblanks c hmem)
    exact ⟨hreturn, hbreak⟩
  rw [map_unplaced_items, results_ofText name (by rwa [String.toList_ofList]) hbreaks, String.toList_ofList, hscan]

/-- **Tokens tile their source.** Nothing is lost between them and nothing is in two of them. The places are those of
words of 32 bits as long as the source has fewer than `2 ^ 30` characters (`Source.across?_delivered`). -/
theorem tokens_tile (s : Source) (hreadable : s.reading.failure = none) :
    (∀ token ∈ tokensOf (ofSource s).items, ∃ line, token.span.source = s.name ∧ 0 < token.span.start.line ∧
      s.reading.lines[token.span.start.line - 1]? = some line ∧ token.span.stop.line = token.span.start.line ∧
      token.span.stop.column = token.span.start.column + (token.span.excerpt line.toList).length ∧
      ∀ name, (ofSource (Source.ofText name (String.ofList (token.span.excerpt line.toList)))).items.map unplaced =
        [.ok token.value]) ∧
    (∀ token ∈ tokensOf (ofSource s).items, token.span.start < token.span.stop) ∧
    (tokensOf (ofSource s).items).Pairwise (fun first second => first.span.stop ≤ second.span.start) ∧
    ∀ index line, s.reading.lines[index]? = some line →
      (∀ error, .error error ∈ (ofSource s).items → error.span.start.line ≠ index + 1) →
        ∃ code comment, line.toList = code ++ comment ∧ (comment = [] ∨ ['/', '/'] <+: comment) ∧
          (∀ c p, (c, p) ∈ placed ⟨index + 1, 1⟩ code →
            (c ∈ MaximalMunch.blanks ↔ ¬ Covered (ofSource s).items p)) ∧
          ∀ c p, (c, p) ∈ placed (across ⟨index + 1, 1⟩ code) comment → ¬ Covered (ofSource s).items p := by
  have htiles := tilesLines_ofSource hreadable
  generalize (ofSource s).items = items at htiles
  refine ⟨fun token hmem => ?_, fun token hmem => ?_, ?_, fun index line hindex hnone => ?_⟩
  · rw [mem_tokensOf] at hmem
    obtain ⟨index, line, block, hindex, hstart, hline, hblock, hmemBlock⟩ := htiles.exists_block_of_mem hmem
    obtain ⟨hsource, hwidth, halone⟩ := hblock.excerpt_of_mem hline hmemBlock
    have hnumber : token.span.start.line = 1 + index := hstart
    refine ⟨line, hsource, by omega, ?_, (htiles.stop_of_mem hmem).1, hwidth, halone⟩
    rw [hnumber, Nat.add_sub_cancel_left]
    exact hindex
  · exact (htiles.stop_of_mem (mem_tokensOf.1 hmem)).2
  · apply htiles.pairwise.filterMap
    rintro (error | first) (error' | second) hprecedes token htoken token' htoken' <;> cases htoken <;> cases htoken'
    exact hprecedes.1
  · rw [Nat.add_comm index 1] at hnone ⊢
    exact htiles.exists_comment hindex hnone

/-- A line with a tab in it, and one that ends in a comment. -/
def tabbed : Source := Source.ofText "tabbed" "a\t<=\nb //"

theorem items_tabbed : (ofSource tabbed).items = [.ok ⟨.identifier ⟨"a"⟩, "tabbed", ⟨1, 1⟩, ⟨1, 2⟩⟩,
    .ok ⟨.symbol .lessOrEqual, "tabbed", ⟨1, 5⟩, ⟨1, 7⟩⟩, .ok ⟨.identifier ⟨"b"⟩, "tabbed", ⟨2, 1⟩, ⟨2, 2⟩⟩] := by
  have hsource : ofSource tabbed =
      inFrontOf "tabbed" ['a', '\t', '<', '=', '\n', 'b', ' ', '/', '/', '\n'] ⟨1, 1⟩ false := by
    rw [ofSource, CharStream.ofSource, tabbed, Source.reading_ofText]
    rfl
  have hword (c : Char) : wordToken (String.singleton c) = MaximalMunch.word [c] := wordToken_ofList [c]
  have hfirst : (ofSource tabbed).next? = (some (.ok ⟨wordToken (String.singleton 'a'), "tabbed", ⟨1, 1⟩, ⟨1, 2⟩⟩),
      inFrontOf "tabbed" ['\t', '<', '=', '\n', 'b', ' ', '/', '/', '\n'] ⟨1, 2⟩ false) := by
    rw [hsource]
    rfl
  have hsecond : (inFrontOf "tabbed" ['\t', '<', '=', '\n', 'b', ' ', '/', '/', '\n'] ⟨1, 2⟩ false).next? =
      (some (.ok ⟨.symbol .lessOrEqual, "tabbed", ⟨1, 5⟩, ⟨1, 7⟩⟩),
        inFrontOf "tabbed" ['\n', 'b', ' ', '/', '/', '\n'] ⟨1, 7⟩ false) := rfl
  have hthird : (inFrontOf "tabbed" ['\n', 'b', ' ', '/', '/', '\n'] ⟨1, 7⟩ false).next? =
      (some (.ok ⟨wordToken (String.singleton 'b'), "tabbed", ⟨2, 1⟩, ⟨2, 2⟩⟩),
        inFrontOf "tabbed" [' ', '/', '/', '\n'] ⟨2, 2⟩ false) := rfl
  have hlast : (inFrontOf "tabbed" [' ', '/', '/', '\n'] ⟨2, 2⟩ false).items = [] := by
    rw [Lexer.items, answers_of_none rfl]
    rfl
  rw [items_of_some hfirst, items_of_some hsecond, items_of_some hthird, hlast, hword, hword]
  rfl

/-- The comparison behind the tab stands in columns five and six. -/
theorem tokens_tile_tabbed :
    tabbed.reading.failure = none ∧
    ⟨.symbol .lessOrEqual, "tabbed", ⟨1, 5⟩, ⟨1, 7⟩⟩ ∈ tokensOf (ofSource tabbed).items ∧
    (ofSource (Source.ofText "alone" (String.ofList (Span.excerpt ⟨"tabbed", ⟨1, 5⟩, ⟨1, 7⟩⟩ "a\t<=".toList)))).items.map
      unplaced = [.ok (.symbol .lessOrEqual)] := by
  have hreading : tabbed.reading = ⟨["a\t<=", "b //"], none⟩ := by
    rw [tabbed, Source.reading_ofText]
    rfl
  have hreadable : tabbed.reading.failure = none := by rw [hreading]
  have hmem : ⟨.symbol .lessOrEqual, "tabbed", ⟨1, 5⟩, ⟨1, 7⟩⟩ ∈ tokensOf (ofSource tabbed).items := by
    rw [mem_tokensOf, items_tabbed]
    exact .tail _ (.head _)
  obtain ⟨line, -, -, hline, -, -, halone⟩ := (tokens_tile tabbed hreadable).1 _ hmem
  rw [hreading] at hline
  cases hline
  exact ⟨hreadable, hmem, halone "alone"⟩

end Lexer

end FormulaCompiler
