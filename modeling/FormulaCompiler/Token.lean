import FormulaCompiler.Binary64.Decimal

/-!
# Tokens

What a source is made of: names, keywords, numbers and symbols. The language ignores the case of
ASCII letters, so two names are the same (`==`) if they agree up to it, though each keeps its
spelling.
-/

namespace FormulaCompiler

/-- A name as it is spelt in the source. -/
structure Identifier where
  spelling : String
  deriving DecidableEq, Inhabited

namespace Identifier

/-- The spelling with its ASCII letters in lower case, which all spellings of one name share. -/
def key (name : Identifier) : String := name.spelling.map Char.toLower

instance : BEq Identifier := ⟨fun a b => a.key == b.key⟩

instance : Hashable Identifier := ⟨fun name => hash name.key⟩

end Identifier

/-- The words that begin a declaration. -/
inductive Keyword where
  | constDecl
  | letDecl
  | fnDecl
  deriving DecidableEq

namespace Keyword

def text : Keyword → String
  | constDecl => "const"
  | letDecl => "let"
  | fnDecl => "fn"

/-- The keyword that a word spells in any case, if it spells one. -/
def ofWord? (word : String) : Option Keyword :=
  [constDecl, letDecl, fnDecl].find? fun keyword => keyword.text == word.map Char.toLower

end Keyword

inductive Symbol where
  | assign
  | equal
  | notEqual
  | less
  | lessOrEqual
  | greater
  | greaterOrEqual
  | plus
  | minus
  | times
  | slash
  | percent
  | caret
  | comma
  | semicolon
  | openParen
  | closeParen
  deriving DecidableEq

def Symbol.text : Symbol → String
  | assign => "="
  | equal => "=="
  | notEqual => "!="
  | less => "<"
  | lessOrEqual => "<="
  | greater => ">"
  | greaterOrEqual => ">="
  | plus => "+"
  | minus => "-"
  | times => "*"
  | slash => "/"
  | percent => "%"
  | caret => "^"
  | comma => ","
  | semicolon => ";"
  | openParen => "("
  | closeParen => ")"

inductive Token where
  | identifier (name : Identifier)
  | keyword (keyword : Keyword)
  | number (value : Binary64)
  | symbol (symbol : Symbol)
  deriving DecidableEq

namespace Token

/-- How messages name a token. -/
def text : Token → String
  | identifier name => "identifier `" ++ name.spelling ++ "`"
  | keyword word => "keyword `" ++ word.text ++ "`"
  | number value => "literal `" ++ value.text ++ "`"
  | symbol mark => "`" ++ mark.text ++ "`"

/-- Names are compared without regard to case and numbers by value. -/
def same : Token → Token → Bool
  | identifier a, identifier b => a == b
  | keyword a, keyword b => a == b
  | number a, number b => a == b
  | symbol a, symbol b => a == b
  | _, _ => false

instance : BEq Token := ⟨same⟩

end Token

end FormulaCompiler
