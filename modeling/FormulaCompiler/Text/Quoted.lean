import FormulaCompiler.Text.GraphemeExtend
import FormulaCompiler.Text.Printable

/-!
# Quoted characters and texts

A quoted character stands between single quotes and a quoted text between double quotes. Inside, the
backslash, the enclosing quote and the common control characters are written with a backslash, and a
character that cannot be shown alone by its code point in hexadecimal. Of the characters that extend
a grapheme only the two halfwidth sound marks can be shown alone.
-/

namespace FormulaCompiler.Text

/-- A code point written out, such as `\u{301}`. -/
def codePointEscape (c : Char) : String :=
  "\\u\x7b" ++ String.ofList (Nat.toDigits 16 c.toNat) ++ "\x7d"

/-- The halfwidth voiced and semi-voiced sound marks of katakana. They extend the letter before them
but fill a place of their own. -/
def isHalfwidthSoundMark (c : Char) : Bool := c = '\uff9e' ∨ c = '\uff9f'

/-- Whether a character can be seen on the line by itself. -/
def canStandAlone (c : Char) : Bool :=
  isPrintable c && (!extendsGrapheme c || isHalfwidthSoundMark c)

/-- How a character is written between two occurrences of `quote`. -/
def escaped (quote c : Char) : String :=
  if c = '\x00' then "\\0"
  else if c = '\t' then "\\t"
  else if c = '\n' then "\\n"
  else if c = '\r' then "\\r"
  else if c = '\\' ∨ c = quote then String.ofList ['\\', c]
  else if canStandAlone c then String.singleton c
  else codePointEscape c

def quotedChar (c : Char) : String := "'" ++ escaped '\'' c ++ "'"

def quotedText (text : String) : String :=
  "\"" ++ String.join (text.toList.map (escaped '"')) ++ "\""

end FormulaCompiler.Text
