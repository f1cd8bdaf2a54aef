/-
Module: MergedMining.Proofs.JsonGrammar
Purpose: The texts of a JSON value by the grammar of JSON, without a scanner.
Trusted boundary: none
Main exports: Json.NumberText, Json.Piece, Json.characters?, Json.Spelling, Json.Laid, Json.tokens,
  Json.Denotes, Json.Laid.append
-/
import Mathlib.Data.List.Forall2
import MergedMining.Json.Token

/-!
A value determines the lexemes of its texts.  A lexeme may have many spellings: a number its
fraction and exponent, a string the escapes of its characters.  A text of the value has its lexemes
in order, each in one of its spellings, with any blanks around them.

Numbers need no blanks after them, as no two lexemes of a value that stand side by side are both
numbers.
-/

namespace MergedMining.Json

/-! ## Numbers -/

/-- One decimal digit or more. -/
structure Digits (text : List Char) : Prop where
  nonempty : text ≠ []
  decimal : ∀ c ∈ text, c.isDigit = true

/-- The sign of a number, written only where it is negative. -/
def signText (negative : Bool) : List Char := if negative then ['-'] else []

/-- What may follow the integer part of a number. -/
inductive Fraction : List Char → Prop where
  | absent : Fraction []
  | present {digits : List Char} (some : Digits digits) : Fraction ('.' :: digits)

/-- What may follow the fraction of a number. -/
inductive Exponent : List Char → Prop where
  | absent : Exponent []
  | present {mark : Char} {sign digits : List Char} (marked : mark = 'e' ∨ mark = 'E')
      (signed : sign = [] ∨ sign = ['+'] ∨ sign = ['-']) (some : Digits digits) :
      Exponent (mark :: (sign ++ digits))

/-- The spellings of numbers, with the integers that they are written as.  Zero with a minus sign is
none, and neither is what has a fraction or an exponent, whatever its value. -/
inductive NumberText : List Char → Option Int → Prop where
  | integer (n : Int) : NumberText (integerText n) (some n)
  | negativeZero : NumberText ['-', '0'] none
  | other {negative : Bool} {n : Nat} {fraction exponent : List Char}
      (behind : Fraction fraction) (last : Exponent exponent)
      (notBoth : fraction ≠ [] ∨ exponent ≠ []) :
      NumberText (signText negative ++ Nat.toDigits 10 n ++ fraction ++ exponent) none

/-! ## Strings -/

/-- What stands at one place of a string: a character, or a 16-bit unit given by its number. -/
inductive Piece where
  | char (c : Char)
  | unit (number : Nat)

/-- The letters that stand for a character after a backslash, with that character. -/
def escapes : List (Char × Char) :=
  [('\"', '\"'), ('\\', '\\'), ('/', '/'), ('b', '\x08'), ('f', '\x0c'), ('n', '\n'),
   ('r', '\r'), ('t', '\t')]

/-- A hexadecimal digit of either case. -/
structure HexDigit (c : Char) (value : Nat) : Prop where
  small : value < 16
  written : c = value.digitChar ∨ c = value.digitChar.toUpper

/-- Hexadecimal digits, the last of which counts one. -/
inductive HexNumber : List Char → Nat → Prop where
  | nil : HexNumber [] 0
  | snoc {digits : List Char} {value digit : Nat} {c : Char} (before : HexNumber digits value)
      (last : HexDigit c digit) : HexNumber (digits ++ [c]) (16 * value + digit)

/-- The spellings of what stands at one place of a string. -/
inductive PieceText : Piece → List Char → Prop where
  | plain {c : Char} (notEnd : c ≠ '\"') (notEscape : c ≠ '\\') (visible : ¬ c.toNat < 0x20) :
      PieceText (.char c) [c]
  | escape {letter c : Char} (meant : (letter, c) ∈ escapes) : PieceText (.char c) ['\\', letter]
  | unit {digits : List Char} {number : Nat} (hexadecimal : HexNumber digits number)
      (width : digits.length = 4) : PieceText (.unit number) ('\\' :: 'u' :: digits)

/-- The character that two surrogates write together. -/
def surrogatePair (leading trailing : Nat) : Char :=
  Char.ofNat (0x10000 + (leading - 0xd800) * 0x400 + (trailing - 0xdc00))

/-- The characters that a string has, unless half of a surrogate pair stands in it without the other
half right behind or before it. -/
def characters? : List Piece → Option (List Char)
  | [] => some []
  | .char c :: pieces => (characters? pieces).map (c :: ·)
  | .unit unit :: pieces =>
      if 0xd800 ≤ unit ∧ unit < 0xdc00 then
        match pieces with
        | .unit next :: others =>
            if 0xdc00 ≤ next ∧ next < 0xe000 then
              (characters? others).map (surrogatePair unit next :: ·)
            else none
        | _ => none
      else if 0xdc00 ≤ unit ∧ unit < 0xe000 then none
      else (characters? pieces).map (Char.ofNat unit :: ·)

/-- The text of a string, if it has one. -/
def textOf (pieces : List Piece) : Text := (characters? pieces).map String.ofList

/-! ## Lexemes -/

/-- A lexeme that has one spelling only. -/
def Token.Fixed : Token → Prop
  | .number _ | .string _ => False
  | _ => True

/-- The spellings of a lexeme. -/
inductive Spelling : Token → List Char → Prop where
  | fixed {token : Token} (fixed : token.Fixed) : Spelling token token.spell
  | number {integer? : Option Int} {text : List Char} (number : NumberText text integer?) :
      Spelling (.number integer?) text
  | string {pieces : List Piece} {texts : List (List Char)}
      (spelled : List.Forall₂ PieceText pieces texts) :
      Spelling (.string (textOf pieces)) ('\"' :: texts.flatten ++ ['\"'])

/-- A text that consists of lexemes in their order, each in one of its spellings, and of blanks
before, between and after them. -/
inductive Laid : List Char → List Token → Prop where
  | nil : Laid [] []
  | blank {c : Char} {text : List Char} {tokens : List Token} (blank : isBlank c = true)
      (rest : Laid text tokens) : Laid (c :: text) tokens
  | lexeme {token : Token} {spelled text : List Char} {tokens : List Token}
      (spelling : Spelling token spelled) (rest : Laid text tokens) :
      Laid (spelled ++ text) (token :: tokens)

/-! ## Values -/

/-- Lexemes of items or members between brackets. -/
def enclosed (first last : Token) : List (List Token) → List Token
  | [] => [first, last]
  | tokens :: others => first :: (tokens ++ others.flatMap (.comma :: ·)) ++ [last]

mutual

/-- The lexemes of a value. -/
def tokens : Json → List Token
  | .null => [.null]
  | .bool value => [.bool value]
  | .number integer? => [.number integer?]
  | .string text? => [.string text?]
  | .array items => enclosed .openBracket .closeBracket (itemTokens items)
  | .object members => enclosed .openBrace .closeBrace (memberTokens members)

/-- The lexemes of each item. -/
def itemTokens : List Json → List (List Token)
  | [] => []
  | item :: items => tokens item :: itemTokens items

/-- The lexemes of each member. -/
def memberTokens : List (Text × Json) → List (List Token)
  | [] => []
  | (key, value) :: members => (.string key :: .colon :: tokens value) :: memberTokens members

end

/-- The text is one of the texts of the value. -/
def Denotes (text : String) (value : Json) : Prop := Laid text.toList value.tokens

/-! ## Laying out -/

/-- Texts of lexemes one behind the other are a text of all of them. -/
theorem Laid.append {text other : List Char} {tokens others : List Token}
    (laid : Laid text tokens) (rest : Laid other others) :
    Laid (text ++ other) (tokens ++ others) := by
  induction laid with
  | nil => exact rest
  | blank blank _ ih => exact .blank blank ih
  | lexeme spelling _ ih =>
      rw [List.append_assoc]
      exact .lexeme spelling ih

theorem Laid.blanks {gap : List Char} (blank : ∀ c ∈ gap, isBlank c = true) : Laid gap [] := by
  induction gap with
  | nil => exact .nil
  | cons c gap ih =>
      obtain ⟨first, others⟩ := List.forall_mem_cons.mp blank
      exact .blank first (ih others)

/-- A spelling of a lexeme is a text of it. -/
theorem Spelling.laid {token : Token} {spelled : List Char} (spelling : Spelling token spelled) :
    Laid spelled [token] := by
  have alone : Laid (spelled ++ []) [token] := .lexeme spelling .nil
  rwa [List.append_nil] at alone

end MergedMining.Json
