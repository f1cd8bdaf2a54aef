/-
Module: MergedMining.Json
Purpose: The values that JSON texts denote.
Trusted boundary: that the values which supplied readers and printers of JSON deal with are these
Main exports: Json, Json.Text
-/

namespace MergedMining

/-- The text of a string, or of the key of a member.  Absent if an escape in it writes half of a
surrogate pair without the other half: then it is no text, though the string is well formed. -/
abbrev Json.Text := Option String

/-- The value that a JSON text denotes.  Members keep their order, and keys may repeat. -/
inductive Json where
  | null
  | bool (value : Bool)
  /-- A number.  It is an integer if it is written as one: a fraction or an exponent makes it
  something else, and so does a minus sign before a zero. -/
  | number (integer? : Option Int)
  | string (text? : Json.Text)
  | array (items : List Json)
  | object (members : List (Json.Text × Json))
deriving Inhabited

end MergedMining
