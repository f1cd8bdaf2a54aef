/-
Module: MergedMining.Json.Form
Purpose: How typed values are written as JSON values and read back.
Trusted boundary: that supplied readers and printers of records follow these rules
Main exports: JsonForm, JsonForm.text, JsonForm.ofText?, Json.RecordField, Json.record, Json.fields?
-/
import MergedMining.Bytes
import MergedMining.Hash256
import MergedMining.Json.Parse
import MergedMining.Json.Print

/-!
A type has one written form and may admit more when it is read.  A record is written as an object
with its fields in order; it is read from an object with the fields in any order, members of other
names being passed over, or from an array of the fields in order.  A field that occurs twice makes a
record unreadable, and so does a member whose name is no text.
-/

namespace MergedMining

/-- A written form, and the forms that are read. -/
class JsonForm (α : Type) where
  toJson : α → Json
  ofJson? : Json → Option α

export JsonForm (toJson ofJson?)

namespace JsonForm

/-- The compact text of a value. -/
def text {α : Type} [JsonForm α] (value : α) : String := (toJson value).compact

/-- The value that a text describes, if it describes one. -/
def ofText? {α : Type} [JsonForm α] (text : String) : Option α := (Json.parse? text).bind ofJson?

end JsonForm

namespace Json

/-! ## Numbers -/

/-- An integer from `low` to `high`, both included. -/
def integerWithin? (low high : Int) : Json → Option Int
  | .number (some n) => if low ≤ n ∧ n ≤ high then some n else none
  | _ => none

/-- A natural number below a bound. -/
def naturalBelow? (bound : Nat) (value : Json) : Option Nat :=
  (value.integerWithin? 0 (bound - 1)).map Int.toNat

instance : JsonForm UInt8 where
  toJson n := .number (some n.toNat)
  ofJson? value := (value.naturalBelow? UInt8.size).map UInt8.ofNat

instance : JsonForm UInt32 where
  toJson n := .number (some n.toNat)
  ofJson? value := (value.naturalBelow? UInt32.size).map UInt32.ofNat

instance : JsonForm UInt64 where
  toJson n := .number (some n.toNat)
  ofJson? value := (value.naturalBelow? UInt64.size).map UInt64.ofNat

instance : JsonForm Int32 where
  toJson n := .number (some n.toInt)
  ofJson? value := (value.integerWithin? Int32.minValue.toInt Int32.maxValue.toInt).map Int32.ofInt

instance : JsonForm Int64 where
  toJson n := .number (some n.toInt)
  ofJson? value := (value.integerWithin? Int64.minValue.toInt Int64.maxValue.toInt).map Int64.ofInt

/-- Sizes and offsets are read up to 64 bits. -/
instance : JsonForm Nat where
  toJson n := .number (some n)
  ofJson? value := value.naturalBelow? UInt64.size

/-! ## Truth values, lists and what may be absent -/

instance : JsonForm Bool where
  toJson b := .bool b
  ofJson?
    | .bool b => some b
    | _ => none

instance {α : Type} [JsonForm α] : JsonForm (List α) where
  toJson items := .array (items.map toJson)
  ofJson?
    | .array items => items.mapM ofJson?
    | _ => none

instance {α : Type} [JsonForm α] : JsonForm (Option α) where
  toJson
    | none => .null
    | some value => toJson value
  ofJson?
    | .null => some none
    | value => (ofJson? value).map some

/-- A hash is a list of its bytes. -/
instance : JsonForm Hash256 where
  toJson hash := toJson hash.bytes
  ofJson? value := (ofJson? value : Option Bytes).bind Hash256.ofBytes?

/-! ## Records -/

/-- A field of a record. -/
structure RecordField where
  name : String
  /-- What is read where an object has no such member. -/
  ifMissing : Option Json := none
  /-- What is read where an array ends before the field. -/
  ifCutOff : Option Json := none

/-- The record of the given values, in the order of the fields. -/
def record (fields : List RecordField) (values : List Json) : Json :=
  .object ((fields.map fun field => some field.name).zip values)

/-- The value of a field among members. -/
def RecordField.among? (field : RecordField) (members : List (String × Json)) : Option Json :=
  match members.filter fun member => member.1 == field.name with
  | [] => field.ifMissing
  | [(_, value)] => some value
  | _ => none

/-- Members with their names as texts; there are none if some name is no text. -/
def namedMembers? (members : List (Text × Json)) : Option (List (String × Json)) :=
  members.mapM fun (text?, value) => text?.map fun name => (name, value)

/-- The values of fields that stand in a row. -/
def inOrder? : List RecordField → List Json → Option (List Json)
  | [], [] => some []
  | [], _ :: _ => none
  | field :: fields, [] => do
      let value ← field.ifCutOff
      let values ← inOrder? fields []
      return value :: values
  | _ :: fields, item :: items => (inOrder? fields items).map (item :: ·)

/-- The values of the fields of a record, in the order of the fields. -/
def fields? (fields : List RecordField) : Json → Option (List Json)
  | .array items => inOrder? fields items
  | .object members => do
      let named ← namedMembers? members
      fields.mapM fun field => field.among? named
  | _ => none

end Json

end MergedMining
