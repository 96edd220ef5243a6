import FormulaCompiler.Proofs.Lexer.Lexemes
import FormulaCompiler.Proofs.Source.LowerCase

/-!
# Scanning in lower case

The lexer takes the same steps over characters in lower case, from modes in lower case: what it answers differs in the
spelling of names and in nothing else (`items_lowered`). One reaction says this for one character (`react_lowered`), a
run for one answer (`run_lowered`).
-/

namespace FormulaCompiler

/-! ### What is in lower case -/

/-- A token with its name, if it is one, in lower case. -/
def Token.lowered : Token → Token
  | identifier name => identifier ⟨name.key⟩
  | token => token

namespace Lexer

/-- An answer in lower case. Errors are what they are. -/
def loweredAnswer : Lexed → Lexed
  | .ok token => .ok { token with value := token.value.lowered }
  | .error error => .error error

def Mode.lowered : Mode → Mode
  | word letters => word (letters.map Char.toLower)
  | mode => mode

def Reaction.lowered : Reaction → Reaction
  | shift mode => shift mode.lowered
  | accept token => accept token.lowered
  | reaction => reaction

def lowered (l : Lexer) : Lexer := { l with stream := { l.stream with rest := l.stream.rest.map Char.toLower } }

/-! ### Characters -/

theorem isDigit_toLower (c : Char) : c.toLower.isDigit = c.isDigit := by
  have hletter {d : Char} (h : d.isAlpha = true) : d.isDigit = false := by
    cases hdigit : d.isDigit with
    | false => rfl
    | true => cases h.symm.trans (MaximalMunch.isAlpha_of_isDigit hdigit)
  rcases toLower_eq_or c with hsame | ⟨halpha, hlower⟩
  · rw [hsame]
  · rw [hletter halpha, hletter hlower]

theorem toLower_eq_of_isDigit {c : Char} (h : c.isDigit = true) : c.toLower = c :=
  (toLower_eq_iff (MaximalMunch.isAlpha_of_isDigit h)).2 rfl

theorem isWordChar_toLower (c : Char) : isWordChar c.toLower = isWordChar c := by
  rw [isWordChar, isWordChar, Char.isAlphanum, Char.isAlphanum, Char.isAlpha_toLower_eq_isAlpha, isDigit_toLower,
    decide_eq_decide.2 (toLower_eq_iff (by decide))]

theorem after_toLower (here : Position) (c : Char) : here.after c.toLower = here.after c := by
  simp only [Position.after, toLower_eq_iff (show ('\n' : Char).isAlpha = false from rfl),
    toLower_eq_iff (show ('\t' : Char).isAlpha = false from rfl)]

/-- A letter begins a word. -/
theorem first?_of_isAlpha {c : Char} (h : c.isAlpha = true) : Mode.first? c = some (.word (String.singleton c)) := by
  have hne {d : Char} (hd : d.isAlpha = false) : c ≠ d := by
    rintro rfl
    cases h.symm.trans hd
  have hsingle : singleSymbol? c = none := by
    unfold singleSymbol?
    split
    all_goals first | rfl | cases h
  rw [Mode.first?, hsingle]
  simp only [hne (show ('/' : Char).isAlpha = false from rfl), hne (show ('!' : Char).isAlpha = false from rfl),
    hne (show ('=' : Char).isAlpha = false from rfl), hne (show ('<' : Char).isAlpha = false from rfl),
    hne (show ('>' : Char).isAlpha = false from rfl), h, if_true, if_false]

theorem map_singleton (c : Char) : (String.singleton c).map Char.toLower = String.singleton c.toLower := by
  rw [← String.toList_inj, String.toList_map, String.toList_singleton, String.toList_singleton]
  rfl

theorem map_push (letters : String) (c : Char) :
    (letters.push c).map Char.toLower = (letters.map Char.toLower).push c.toLower := by
  rw [← String.toList_inj, String.toList_map, String.toList_push, String.toList_push, String.toList_map,
    List.map_append]
  rfl

theorem map_map_toLower (letters : String) :
    (letters.map Char.toLower).map Char.toLower = letters.map Char.toLower := by
  rw [← String.toList_inj, String.toList_map, String.toList_map, List.map_map]
  exact List.map_congr_left fun c _ => Char.toLower_toLower_eq_toLower c

theorem first?_toLower (c : Char) : Mode.first? c.toLower = (Mode.first? c).map Mode.lowered := by
  cases halpha : c.isAlpha with
  | true =>
      have hlower : c.toLower.isAlpha = true := (Char.isAlpha_toLower_eq_isAlpha c).trans halpha
      rw [first?_of_isAlpha halpha, first?_of_isAlpha hlower, Option.map_some, Mode.lowered, map_singleton]
  | false =>
      have hsame : c.toLower = c := (toLower_eq_iff halpha).2 rfl
      rw [hsame]
      -- No word begins with such a character, so that there is nothing to put in lower case.
      cases hfirst : Mode.first? c with
      | none => rfl
      | some mode =>
          rw [Option.map_some, Option.some_inj]
          unfold Mode.first? at hfirst
          repeat' split at hfirst
          all_goals cases hfirst
          all_goals first | rfl | exact absurd ‹c.isAlpha = true› (by rw [halpha]; exact Bool.false_ne_true)

/-! ### Reactions -/

theorem wordToken_lowered (letters : String) : wordToken (letters.map Char.toLower) = (wordToken letters).lowered := by
  rw [wordToken, wordToken, Keyword.ofWord?, Keyword.ofWord?, map_map_toLower]
  split <;> rfl

theorem numberToken_lowered (whole fraction : String) :
    (numberToken whole fraction).lowered = numberToken whole fraction := by
  rw [numberToken]
  generalize (Decimal.ofDigits whole.toList fraction.toList).toBinary64? = value
  cases value <;> rfl

theorem react_lowered (mode : Mode) (next : Option Char) :
    mode.lowered.react (next.map Char.toLower) = (mode.react next).lowered := by
  have his {d : Char} (hd : d.isAlpha = false) : next.map Char.toLower = some d ↔ next = some d := by
    cases next with
    | none => simp
    | some c => rw [Option.map_some, Option.some_inj, Option.some_inj, toLower_eq_iff hd]
  cases mode with
  | between =>
      cases next with
      | none => rfl
      | some c =>
          change Mode.react .between (some c.toLower) = _
          rw [Mode.react, Mode.react, first?_toLower]
          cases hfirst : Mode.first? c with
          | some mode => rfl
          | none =>
              have halpha : c.isAlpha = false := by
                cases halpha : c.isAlpha with
                | false => rfl
                | true => cases hfirst.symm.trans (first?_of_isAlpha halpha)
              rw [Option.map_none, (toLower_eq_iff halpha).2 rfl]
              rfl
  | skipping =>
      cases next with
      | none => rfl
      | some c =>
          change Reaction.shift (if c.toLower = '\n' then .between else .skipping) = _
          rw [if_congr (toLower_eq_iff (by decide)) rfl rfl, Mode.react]
          split <;> rfl
  | complete symbol => rfl
  | slash =>
      change (if next.map Char.toLower = some '/' then Reaction.shift .comment else .accept (.symbol .slash)) = _
      rw [if_congr (his (by decide)) rfl rfl, Mode.react]
      split <;> rfl
  | comment =>
      cases next with
      | none => rfl
      | some c =>
          change Reaction.shift (if c.toLower = '\n' then .between else .comment) = _
          rw [if_congr (toLower_eq_iff (by decide)) rfl rfl, Mode.react]
          split <;> rfl
  | comparison alone paired =>
      change (if next.map Char.toLower = some '=' then Reaction.shift (.complete paired)
        else .accept (.symbol alone)) = _
      rw [if_congr (his (by decide)) rfl rfl, Mode.react]
      split <;> rfl
  | bang =>
      change (if next.map Char.toLower = some '=' then Reaction.shift (.complete .notEqual)
        else .reject (.expected '=')) = _
      rw [if_congr (his (by decide)) rfl rfl, Mode.react]
      split <;> rfl
  | whole digits =>
      cases next with
      | none => exact (numberToken_lowered digits "").symm
      | some c =>
          change Mode.react (.whole digits) (some c.toLower) = _
          rw [Mode.react, Mode.react, isDigit_toLower, if_congr (toLower_eq_iff (by decide)) rfl rfl]
          split
          · rename_i hdigit
            rw [toLower_eq_of_isDigit hdigit]
            rfl
          · split
            · rfl
            · exact (numberToken_lowered digits "").symm
  | fraction digits places =>
      cases next with
      | none =>
          change Mode.react (.fraction digits places) none = _
          rw [Mode.react]
          split
          · rfl
          · exact (numberToken_lowered digits places).symm
      | some c =>
          change Mode.react (.fraction digits places) (some c.toLower) = _
          rw [Mode.react, Mode.react, isDigit_toLower]
          split
          · rename_i hdigit
            rw [toLower_eq_of_isDigit hdigit]
            rfl
          · split
            · rfl
            · exact (numberToken_lowered digits places).symm
  | word letters =>
      cases next with
      | none => exact congrArg Reaction.accept (wordToken_lowered letters)
      | some c =>
          change Mode.react (.word (letters.map Char.toLower)) (some c.toLower) = _
          rw [Mode.react, Mode.react, isWordChar_toLower, wordToken_lowered, ← map_push]
          split <;> rfl

/-! ### Answers -/

/-- The outcome of asking a lexer, in lower case. -/
def loweredOutcome (outcome : Option Lexed × Lexer) : Option Lexed × Lexer :=
  (outcome.1.map loweredAnswer, outcome.2.lowered)

theorem run_lowered (source : String) (failure : Option AccessError) (mode : Mode) (start last : Position)
    (rest : List Char) (here : Position) :
    run source failure mode.lowered start last (rest.map Char.toLower) here =
      loweredOutcome (run source failure mode start last rest here) := by
  have hbetween (mode : Mode) : mode.lowered = .between ↔ mode = .between := by cases mode <;> simp [Mode.lowered]
  have hskipping (mode : Mode) : (mode.lowered == .skipping) = (mode == .skipping) := by
    cases mode <;> rfl
  induction rest generalizing mode start last here with
  | nil =>
      cases failure with
      | some error => rfl
      | none =>
          have hreact := react_lowered mode none
          rw [List.map_nil, run, run]
          simp only [Option.map_none] at hreact
          rw [hreact, hskipping]
          cases mode.react none <;> rfl
  | cons c rest ih =>
      have hreact := react_lowered mode (some c)
      rw [Option.map_some] at hreact
      rw [List.map_cons, run, run, hreact, hskipping, after_toLower]
      cases mode.react (some c) with
      | shift next =>
          change run source failure next.lowered (if mode.lowered = .between then here else start) here _ _ = _
          rw [if_congr (hbetween mode) rfl rfl, ih]
      | _ => rfl

theorem next?_lowered (l : Lexer) : l.lowered.next? = loweredOutcome l.next? := by
  have hmode : (if l.skipping then Mode.skipping else .between).lowered =
      if l.skipping then .skipping else .between := by
    split <;> rfl
  have hrun := run_lowered l.stream.source l.stream.failure (if l.skipping then .skipping else .between) l.stream.here
    l.stream.here l.stream.rest l.stream.here
  rw [hmode] at hrun
  exact hrun

theorem lowered_items (l : Lexer) : l.lowered.items = l.items.map loweredAnswer := by
  induction l using answers.induct with
  | case1 l left hnext =>
      have hlowered := next?_lowered l
      rw [hnext] at hlowered
      rw [items_of_none hnext, items_of_none hlowered]
      rfl
  | case2 l answer next hnext ih =>
      have hlowered := next?_lowered l
      rw [hnext] at hlowered
      rw [items_of_some hnext, items_of_some hlowered, ih]
      rfl

/-- **A source in lower case is scanned to what its source is scanned to, in lower case.** -/
theorem items_lowered (s : Source) : (ofSource s.lowered).items = (ofSource s).items.map loweredAnswer := by
  have hlexer : ofSource s.lowered = (ofSource s).lowered := by
    rw [ofSource, CharStream.ofSource, Source.reading_lowered, Reading.chars_lowered]
    rfl
  rw [hlexer, lowered_items]

end Lexer

end FormulaCompiler
