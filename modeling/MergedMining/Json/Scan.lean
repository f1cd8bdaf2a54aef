/-
Module: MergedMining.Json.Scan
Purpose: The lexemes that a text is made of.
Trusted boundary: that a supplied reader of JSON takes texts apart in this way
Main exports: Json.Draft, Json.Mode, Json.Mode.step, Json.scan
-/
import MergedMining.Json.Token

/-!
A text is scanned character by character.  The mode says what lexeme is under way; a character
completes it, continues it, or is refused.  A number is completed by whatever cannot continue it, so
such a character also begins what comes next.  No text is too long or too deep, since nothing but
the mode is remembered.
-/

namespace MergedMining.Json

/-- The text of a string while it is read. -/
structure Draft where
  /-- The characters so far, the latest first, unless a surrogate has remained without partner. -/
  chars : Option (List Char)
  /-- A leading surrogate whose partner must come next. -/
  leading : Option Nat
deriving Repr, DecidableEq

namespace Draft

def empty : Draft := ⟨some [], none⟩

/-- A string with a lone surrogate has no text. -/
def broken : Draft := ⟨none, none⟩

/-- The next character. -/
def push (draft : Draft) (c : Char) : Draft :=
  match draft.leading with
  | none => ⟨draft.chars.map (c :: ·), none⟩
  | some _ => broken

/-- The character that two surrogates write together. -/
def pair (leading trailing : Nat) : Char :=
  Char.ofNat (0x10000 + (leading - 0xd800) * 0x400 + (trailing - 0xdc00))

/-- The next escaped 16-bit unit: a character, or half of a pair. -/
def pushUnit (draft : Draft) (unit : Nat) : Draft :=
  let isLeading := 0xd800 ≤ unit ∧ unit < 0xdc00
  let isTrailing := 0xdc00 ≤ unit ∧ unit < 0xe000
  match draft.leading with
  | some leading =>
      if isTrailing then ⟨draft.chars.map (pair leading unit :: ·), none⟩ else broken
  | none =>
      if isLeading then { draft with leading := some unit }
      else if isTrailing then broken
      else draft.push (Char.ofNat unit)

/-- The text, once the string has ended. -/
def text? (draft : Draft) : Text :=
  match draft.leading with
  | none => draft.chars.map fun chars => String.ofList chars.reverse
  | some _ => none

end Draft

/-- The lexeme under way. -/
inductive Mode where
  /-- None. -/
  | between
  /-- A word of which a letter and possibly more are missing. -/
  | word (next : Char) (others : List Char) (token : Token)
  /-- A string. -/
  | string (draft : Draft)
  /-- A string, just after a backslash. -/
  | escape (draft : Draft)
  /-- A string, in an escaped unit of which a digit and `missing` more are missing. -/
  | unit (draft : Draft) (missing value : Nat)
  /-- A number, just after its minus sign. -/
  | minus
  /-- A number whose integer part is zero. -/
  | zero (negative : Bool)
  /-- A number, in its integer part. -/
  | integer (negative : Bool) (value : Nat)
  /-- A number, just after its point. -/
  | point
  /-- A number, in its fraction. -/
  | fraction
  /-- A number, just after the letter of its exponent. -/
  | exponentMark
  /-- A number, just after the sign of its exponent. -/
  | exponentSign
  /-- A number, in its exponent. -/
  | exponent
deriving Repr, DecidableEq

/-- The value of a decimal digit. -/
def digit? (c : Char) : Option Nat :=
  if c.isDigit then some (c.toNat - '0'.toNat) else none

/-- The value of a hexadecimal digit of either case. -/
def hexDigit? (c : Char) : Option Nat :=
  if c.isDigit then some (c.toNat - '0'.toNat)
  else if 'a' ≤ c ∧ c ≤ 'f' then some (c.toNat - 'a'.toNat + 10)
  else if 'A' ≤ c ∧ c ≤ 'F' then some (c.toNat - 'A'.toNat + 10)
  else none

/-- The character that a letter after a backslash stands for. -/
def unescape? : Char → Option Char
  | '\"' => some '\"'
  | '\\' => some '\\'
  | '/' => some '/'
  | 'b' => some '\x08'
  | 'f' => some '\x0c'
  | 'n' => some '\n'
  | 'r' => some '\r'
  | 't' => some '\t'
  | _ => none

namespace Mode

/-- The number that ends here, if one can. -/
def number? : Mode → Option Token
  | .zero negative => some (.number (if negative then none else some 0))
  | .integer negative value => some (.number (some (if negative then -(value : Int) else value)))
  | .fraction => some (.number none)
  | .exponent => some (.number none)
  | _ => none

/-- What a character means where no lexeme is under way: the lexeme that it is, or the mode that it
leads to. -/
def begin (c : Char) : Option (List Token × Mode) :=
  if isBlank c then some ([], .between)
  else match c with
    | '{' => some ([.openBrace], .between)
    | '}' => some ([.closeBrace], .between)
    | '[' => some ([.openBracket], .between)
    | ']' => some ([.closeBracket], .between)
    | ':' => some ([.colon], .between)
    | ',' => some ([.comma], .between)
    | '\"' => some ([], .string .empty)
    | 'n' => some ([], .word 'u' ['l', 'l'] .null)
    | 't' => some ([], .word 'r' ['u', 'e'] (.bool true))
    | 'f' => some ([], .word 'a' ['l', 's', 'e'] (.bool false))
    | '-' => some ([], .minus)
    | '0' => some ([], .zero false)
    | c => (digit? c).map fun value => ([], .integer false value)

/-- A character that does not continue the number under way completes it. -/
def complete (mode : Mode) (c : Char) : Option (List Token × Mode) := do
  let number ← mode.number?
  let (tokens, next) ← begin c
  return (number :: tokens, next)

/-- The lexemes that a character completes, and the mode after it. -/
def step (mode : Mode) (c : Char) : Option (List Token × Mode) :=
  let isExponentMark := c = 'e' ∨ c = 'E'
  match mode with
  | .between => begin c
  | .word next others token =>
      if c = next then
        match others with
        | [] => some ([token], .between)
        | next :: others => some ([], .word next others token)
      else none
  | .string draft =>
      if c = '\"' then some ([.string draft.text?], .between)
      else if c = '\\' then some ([], .escape draft)
      else if c.toNat < 0x20 then none
      else some ([], .string (draft.push c))
  | .escape draft =>
      if c = 'u' then some ([], .unit draft 3 0)
      else (unescape? c).map fun c => ([], .string (draft.push c))
  | .unit draft missing value =>
      (hexDigit? c).map fun digit =>
        match missing with
        | 0 => ([], .string (draft.pushUnit (16 * value + digit)))
        | missing + 1 => ([], .unit draft missing (16 * value + digit))
  | .minus =>
      if c = '0' then some ([], .zero true)
      else (digit? c).map fun digit => ([], .integer true digit)
  | .zero _ =>
      if c.isDigit then none
      else if c = '.' then some ([], .point)
      else if isExponentMark then some ([], .exponentMark)
      else mode.complete c
  | .integer negative value =>
      match digit? c with
      | some digit => some ([], .integer negative (10 * value + digit))
      | none =>
          if c = '.' then some ([], .point)
          else if isExponentMark then some ([], .exponentMark)
          else mode.complete c
  | .point => if c.isDigit then some ([], .fraction) else none
  | .fraction =>
      if c.isDigit then some ([], .fraction)
      else if isExponentMark then some ([], .exponentMark)
      else mode.complete c
  | .exponentMark =>
      if c = '+' ∨ c = '-' then some ([], .exponentSign)
      else if c.isDigit then some ([], .exponent)
      else none
  | .exponentSign => if c.isDigit then some ([], .exponent) else none
  | .exponent => if c.isDigit then some ([], .exponent) else mode.complete c

/-- The lexeme that the end of the text completes, if the text may end here. -/
def finish : Mode → Option (List Token)
  | .between => some []
  | mode => mode.number?.map ([·])

end Mode

/-- The lexemes from a mode on, after those already completed, the latest first. -/
def scanFrom (mode : Mode) (completed : List Token) : List Char → Option (List Token)
  | [] => mode.finish.map fun last => (last ++ completed).reverse
  | c :: rest =>
      match mode.step c with
      | none => none
      | some (tokens, next) => scanFrom next (tokens.reverse ++ completed) rest

/-- The lexemes of a text, or nothing if it is not made of lexemes. -/
def scan (text : List Char) : Option (List Token) := scanFrom .between [] text

end MergedMining.Json
