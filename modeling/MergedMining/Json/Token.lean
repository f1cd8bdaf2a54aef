/-
Module: MergedMining.Json.Token
Purpose: The lexemes of JSON texts, and how each is spelled.
Trusted boundary: that supplied readers and printers of JSON share these lexemes and spellings
Main exports: Json.Token, Json.isBlank, Json.escapeChar, Json.quote, Json.Token.spell
-/
import MergedMining.Json

namespace MergedMining.Json

/-- A lexeme, by what it stands for. -/
inductive Token where
  | openBrace
  | closeBrace
  | openBracket
  | closeBracket
  | colon
  | comma
  | null
  | bool (value : Bool)
  | number (integer? : Option Int)
  | string (text? : Text)
deriving Repr, DecidableEq

/-- The four characters that may stand between lexemes. -/
def isBlank (c : Char) : Bool := c == ' ' || c == '\t' || c == '\n' || c == '\r'

/-- How a character is written inside a string: as it is, unless it would end the string, begin an
escape, or is a control character. -/
def escapeChar (c : Char) : List Char :=
  if c = '\"' then ['\\', '\"']
  else if c = '\\' then ['\\', '\\']
  else if c = '\x08' then ['\\', 'b']
  else if c = '\x0c' then ['\\', 'f']
  else if c = '\n' then ['\\', 'n']
  else if c = '\r' then ['\\', 'r']
  else if c = '\t' then ['\\', 't']
  else if c.toNat < 0x20 then
    ['\\', 'u', '0', '0', (c.toNat / 16).digitChar, (c.toNat % 16).digitChar]
  else [c]

/-- A text between quotation marks. -/
def quote (text : String) : List Char :=
  '\"' :: text.toList.flatMap escapeChar ++ ['\"']

/-- An integer in decimal. -/
def integerText (n : Int) : List Char :=
  if n < 0 then '-' :: Nat.toDigits 10 n.natAbs else Nat.toDigits 10 n.natAbs

/-- A spelling of a lexeme.  Where no value is known, it is the spelling of one that has none. -/
def Token.spell : Token → List Char
  | .openBrace => ['{']
  | .closeBrace => ['}']
  | .openBracket => ['[']
  | .closeBracket => [']']
  | .colon => [':']
  | .comma => [',']
  | .null => "null".toList
  | .bool true => "true".toList
  | .bool false => "false".toList
  | .number (some n) => integerText n
  | .number none => "0.0".toList
  | .string (some text) => quote text
  | .string none => "\"\\ud800\"".toList

end MergedMining.Json
