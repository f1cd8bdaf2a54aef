/-
Module: MergedMining.Json.Print
Purpose: Texts that denote a value, compact or laid out over lines.
Trusted boundary: that a supplied printer of JSON lays values out in this way
Main exports: Json.Layout, Json.print, Json.compact, Json.pretty
-/
import MergedMining.Json.Token

namespace MergedMining.Json

/-- The blanks that a printed value has between its lexemes. -/
structure Layout where
  /-- Before an item or member at a depth, and before the bracket that closes at that depth. -/
  gap : (depth : Nat) → List Char
  /-- Between a colon and the value after it. -/
  space : List Char

namespace Layout

/-- No blanks at all. -/
def compact : Layout := ⟨fun _ => [], []⟩

/-- Each item and member on a line of its own, two spaces deeper than the brackets around it. -/
def pretty : Layout := ⟨fun depth => '\n' :: List.replicate (2 * depth) ' ', [' ']⟩

/-- Texts of items or members between brackets; nothing stands between the brackets if there is
no item. -/
def enclose (layout : Layout) (depth : Nat) (first last : Token) (texts : List (List Char)) :
    List Char :=
  let separated := Token.comma.spell.intercalate (texts.map (layout.gap (depth + 1) ++ ·))
  let closing := if texts.isEmpty then [] else layout.gap depth
  first.spell ++ separated ++ closing ++ last.spell

end Layout

mutual

/-- A text of a value at a depth. -/
def print (layout : Layout) (depth : Nat) : Json → List Char
  | .null => Token.null.spell
  | .bool value => (Token.bool value).spell
  | .number integer? => (Token.number integer?).spell
  | .string text? => (Token.string text?).spell
  | .array items =>
      layout.enclose depth .openBracket .closeBracket (printItems layout (depth + 1) items)
  | .object members =>
      layout.enclose depth .openBrace .closeBrace (printMembers layout (depth + 1) members)

/-- The texts of items. -/
def printItems (layout : Layout) (depth : Nat) : List Json → List (List Char)
  | [] => []
  | item :: items => print layout depth item :: printItems layout depth items

/-- The texts of members. -/
def printMembers (layout : Layout) (depth : Nat) : List (Text × Json) → List (List Char)
  | [] => []
  | (key, value) :: members =>
      ((Token.string key).spell ++ Token.colon.spell ++ layout.space ++ print layout depth value)
        :: printMembers layout depth members

end

/-- The text without any blanks. -/
def compact (value : Json) : String := String.ofList (value.print .compact 0)

/-- The text laid out over lines. -/
def pretty (value : Json) : String := String.ofList (value.print .pretty 0)

end MergedMining.Json
