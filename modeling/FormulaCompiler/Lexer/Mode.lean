import FormulaCompiler.AccessError
import FormulaCompiler.Text.Quoted
import FormulaCompiler.Token

/-!
# The modes of the lexer

The lexer looks at one character at a time. Its mode says what it has seen of the token under way, and
`Mode.react` says what the next character, or the end of the input, does in that mode: the character
is taken into a new mode, or the token or error under way is complete without it. Every token is
therefore given out only once the character after it has been looked at.
-/

namespace FormulaCompiler

/-- Why a token could not be formed. -/
inductive LexError where
  | input (error : AccessError)
  /-- No token starts with this character. -/
  | badChar (found : Char)
  /-- Only this character could have followed. -/
  | expected (wanted : Char)
  | missingFraction
  | numberOverflow
  deriving DecidableEq

def LexError.message : LexError → String
  | input error => "I/O error: " ++ error.message
  | badChar found => "Bad character " ++ Text.quotedChar found ++ " in input stream"
  | expected wanted => "Expected " ++ Text.quotedChar wanted
  | missingFraction => "Expected at least one digit after the decimal point"
  | numberOverflow => "Numeric literal overflow"

namespace Lexer

/-- What has been seen of the token under way. -/
inductive Mode where
  /-- Nothing: a token may start here. -/
  | between
  /-- An error has been reported; the rest of its line is dropped. -/
  | skipping
  /-- The whole of a token that no further character can change. -/
  | complete (symbol : Symbol)
  /-- A slash, which may open a comment. -/
  | slash
  | comment
  /-- The first character of `alone`, which an equals sign turns into `paired`. -/
  | comparison (alone paired : Symbol)
  | bang
  | whole (digits : String)
  /-- A number up to and behind its point. -/
  | fraction (whole fraction : String)
  | word (letters : String)
  deriving DecidableEq

/-- What looking at a character leads to. -/
inductive Reaction where
  /-- The character is taken. -/
  | shift (mode : Mode)
  /-- A token has ended before the character. -/
  | accept (token : Token)
  /-- An error stands before the character. -/
  | reject (error : LexError)
  /-- The input ends between tokens. -/
  | stop
  deriving DecidableEq

def isBlank (c : Char) : Bool :=
  c = ' ' || c = '\t' || c = '\n' || c = '\r' || c = '\x0c'

def isWordChar (c : Char) : Bool := c.isAlphanum || c = '_'

/-- The symbol that a character is by itself, whatever follows it. -/
def singleSymbol? : Char → Option Symbol
  | ',' => some .comma
  | ';' => some .semicolon
  | '(' => some .openParen
  | ')' => some .closeParen
  | '+' => some .plus
  | '-' => some .minus
  | '*' => some .times
  | '%' => some .percent
  | '^' => some .caret
  | _ => none

/-- The mode after the first character of a token, or after a blank. -/
def Mode.first? (c : Char) : Option Mode :=
  match singleSymbol? c with
  | some symbol => some (.complete symbol)
  | none =>
      if c = '/' then some .slash
      else if c = '!' then some .bang
      else if c = '=' then some (.comparison .assign .equal)
      else if c = '<' then some (.comparison .less .lessOrEqual)
      else if c = '>' then some (.comparison .greater .greaterOrEqual)
      else if c.isAlpha then some (.word (String.singleton c))
      else if c.isDigit then some (.whole (String.singleton c))
      else if isBlank c then some .between
      else none

/-- What a literal leads to, given the double that it denotes, if there is one. -/
def numberReaction : Option Binary64 → Reaction
  | some value => .accept (.number value)
  | none => .reject .numberOverflow

def numberToken (whole fraction : String) : Reaction :=
  numberReaction (Decimal.ofDigits whole.toList fraction.toList).toBinary64?

/-- The keyword that a word spells, or else the name that it is. -/
def wordToken (letters : String) : Token :=
  match Keyword.ofWord? letters with
  | some keyword => .keyword keyword
  | none => .identifier ⟨letters⟩

/-- What a mode does on the next character; `none` is the end of the input. -/
def Mode.react : Mode → Option Char → Reaction
  | between, none => .stop
  | between, some c =>
      match Mode.first? c with
      | some mode => .shift mode
      | none => .reject (.badChar c)
  | skipping, none => .stop
  | skipping, some c => .shift (if c = '\n' then between else skipping)
  | complete symbol, _ => .accept (.symbol symbol)
  | slash, next => if next = some '/' then .shift comment else .accept (.symbol .slash)
  | comment, none => .stop
  | comment, some c => .shift (if c = '\n' then between else comment)
  | comparison alone paired, next =>
      if next = some '=' then .shift (complete paired) else .accept (.symbol alone)
  | bang, next =>
      if next = some '=' then .shift (complete .notEqual) else .reject (.expected '=')
  | whole digits, none => numberToken digits ""
  | whole digits, some c =>
      if c.isDigit then .shift (whole (digits.push c))
      else if c = '.' then .shift (fraction digits "")
      else numberToken digits ""
  | fraction digits places, none =>
      if places = "" then .reject .missingFraction else numberToken digits places
  | fraction digits places, some c =>
      if c.isDigit then .shift (fraction digits (places.push c))
      else if places = "" then .reject .missingFraction
      else numberToken digits places
  | word letters, none => .accept (wordToken letters)
  | word letters, some c =>
      if isWordChar c then .shift (word (letters.push c)) else .accept (wordToken letters)

/-- Whether a mode holds a part of a token, so that it may accept one without taking a character. -/
def Mode.holdsToken : Mode → Bool
  | between | skipping | comment => false
  | _ => true

theorem Mode.holdsToken_of_react_accept {mode : Mode} {next : Option Char} {token : Token}
    (h : mode.react next = .accept token) : mode.holdsToken = true := by
  cases mode <;> cases next <;> simp_all [react, holdsToken]
  split at h <;> simp at h

end Lexer

end FormulaCompiler
