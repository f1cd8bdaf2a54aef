/-
Module: MergedMining.Json.Parse
Purpose: The value that a text denotes.
Trusted boundary: that a supplied reader of JSON puts lexemes together in this way
Main exports: Json.Frame, Json.Focus, Json.Focus.step, Json.build, Json.parse?
-/
import MergedMining.Json.Scan

/-!
Lexemes are put together one by one.  What has been begun and not finished lies on a stack, one
frame for each open array or object, so values may be nested to any depth.
-/

namespace MergedMining.Json

/-- An array or object in which a value is under way, with what stands before that value, the
latest first. -/
inductive Frame where
  | item (before : List Json)
  | member (before : List (Text × Json)) (key : Text)

/-- What must come next. -/
inductive Focus where
  /-- A value. -/
  | value
  /-- A first item, or the end of the array just begun. -/
  | firstItem
  /-- A first key, or the end of the object just begun. -/
  | firstKey
  /-- A key, after these members and a comma. -/
  | key (before : List (Text × Json))
  /-- The colon after a key. -/
  | colon (before : List (Text × Json)) (key : Text)
  /-- Whatever may follow the finished value. -/
  | finished (value : Json)

/-- A lexeme where a value must come. -/
def beginValue (stack : List Frame) : Token → Option (Focus × List Frame)
  | .null => some (.finished .null, stack)
  | .bool value => some (.finished (.bool value), stack)
  | .number integer? => some (.finished (.number integer?), stack)
  | .string text? => some (.finished (.string text?), stack)
  | .openBracket => some (.firstItem, stack)
  | .openBrace => some (.firstKey, stack)
  | _ => none

/-- One more lexeme. -/
def Focus.step (stack : List Frame) : Focus → Token → Option (Focus × List Frame)
  | .value, token => beginValue stack token
  | .firstItem, .closeBracket => some (.finished (.array []), stack)
  | .firstItem, token => beginValue (.item [] :: stack) token
  | .firstKey, .closeBrace => some (.finished (.object []), stack)
  | .firstKey, .string name => some (.colon [] name, stack)
  | .key before, .string name => some (.colon before name, stack)
  | .colon before name, .colon => some (.value, .member before name :: stack)
  | .finished last, token =>
      match stack, token with
      | .item before :: outer, .comma => some (.value, .item (last :: before) :: outer)
      | .item before :: outer, .closeBracket =>
          some (.finished (.array (last :: before).reverse), outer)
      | .member before name :: outer, .comma => some (.key ((name, last) :: before), outer)
      | .member before name :: outer, .closeBrace =>
          some (.finished (.object ((name, last) :: before).reverse), outer)
      | _, _ => none
  | _, _ => none

/-- The value that the remaining lexemes finish. -/
def buildFrom (focus : Focus) (stack : List Frame) : List Token → Option Json
  | [] =>
      match focus, stack with
      | .finished value, [] => some value
      | _, _ => none
  | token :: rest =>
      match focus.step stack token with
      | none => none
      | some (next, stack) => buildFrom next stack rest

/-- The value that lexemes make up. -/
def build (tokens : List Token) : Option Json := buildFrom .value [] tokens

/-- The value that a text denotes, or nothing if the text is not JSON. -/
def parse? (text : String) : Option Json := (scan text.toList).bind build

end MergedMining.Json
