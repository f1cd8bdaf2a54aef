/-
Module: MergedMining.Proofs.LawfulForms
Purpose: What a typed value is written as is read back as that value.
Trusted boundary: none
Main exports: LawfulForm, JsonForm.ofText?_text, Json.fields?_record, Json.bind_fields?_record,
  Json.ofJson?_toJson_nat, Json.ofJson?_toJson_some, ExactForm, ofJson?_eq_some_iff
-/
import MergedMining.Proofs.JsonTexts
import MergedMining.Proofs.RecordReading

/-!
A form is lawful if reading undoes writing.  Lists of lawful items are lawful, and a record is read
back if its fields have different names and each of them is read back.  Sizes and offsets are the
exception: any number is written, but only those below `2 ^ 64` are read.

A form is exact if a value is read from nothing but what it is written as, as a number is; a record
has other forms as well.
-/

namespace MergedMining

open Json

/-- Every value is read back from what it is written as. -/
class LawfulForm (α : Type) [JsonForm α] : Prop where
  ofJson?_toJson : ∀ value : α, ofJson? (toJson value) = some value

attribute [simp] LawfulForm.ofJson?_toJson

/-- From the text of a value is read what is read from the value that it is written as. -/
theorem JsonForm.ofText?_text {α : Type} [JsonForm α] (value : α) :
    (ofText? (text value) : Option α) = ofJson? (toJson value) := by
  rw [ofText?, text, parse?_compact, Option.bind_some]

/-- A value whose form is read back is read back from its text as well. -/
theorem JsonForm.ofText?_text_of_lawful {α : Type} [JsonForm α] [LawfulForm α] (value : α) :
    ofText? (text value) = some value := by
  rw [ofText?_text, LawfulForm.ofJson?_toJson]

namespace Json

/-! ## Numbers -/

/-- A number is read as a word if the word has room for it. -/
theorem naturalBelow?_ofNat (n bound : Nat) :
    naturalBelow? bound (.number (some n)) = if n < bound then some n else none := by
  by_cases small : n < bound
  · have within : (0 : Int) ≤ n ∧ (n : Int) ≤ bound - 1 := by omega
    simp only [naturalBelow?, integerWithin?, within, small, and_self, if_true, Option.map_some,
      Int.toNat_natCast]
  · have beyond : ¬ ((0 : Int) ≤ n ∧ (n : Int) ≤ bound - 1) := by omega
    simp only [naturalBelow?, integerWithin?, beyond, small, if_false, Option.map_none]

theorem naturalBelow?_of_lt {n bound : Nat} (small : n < bound) :
    naturalBelow? bound (.number (some n)) = some n := by
  rw [naturalBelow?_ofNat, if_pos small]

theorem integerWithin?_of_le {n low high : Int} (least : low ≤ n) (most : n ≤ high) :
    integerWithin? low high (.number (some n)) = some n := by
  simp only [integerWithin?, least, most, and_self, if_true]

instance : LawfulForm UInt8 where
  ofJson?_toJson n := by
    show (naturalBelow? UInt8.size (.number (some n.toNat))).map UInt8.ofNat = some n
    rw [naturalBelow?_of_lt n.toNat_lt_size, Option.map_some, UInt8.ofNat_toNat]

instance : LawfulForm UInt32 where
  ofJson?_toJson n := by
    show (naturalBelow? UInt32.size (.number (some n.toNat))).map UInt32.ofNat = some n
    rw [naturalBelow?_of_lt n.toNat_lt_size, Option.map_some, UInt32.ofNat_toNat]

instance : LawfulForm UInt64 where
  ofJson?_toJson n := by
    show (naturalBelow? UInt64.size (.number (some n.toNat))).map UInt64.ofNat = some n
    rw [naturalBelow?_of_lt n.toNat_lt_size, Option.map_some, UInt64.ofNat_toNat]

instance : LawfulForm Int32 where
  ofJson?_toJson n := by
    show (integerWithin? Int32.minValue.toInt Int32.maxValue.toInt
      (.number (some n.toInt))).map Int32.ofInt = some n
    rw [integerWithin?_of_le n.minValue_le_toInt n.toInt_le, Option.map_some, Int32.ofInt_toInt]

instance : LawfulForm Int64 where
  ofJson?_toJson n := by
    show (integerWithin? Int64.minValue.toInt Int64.maxValue.toInt
      (.number (some n.toInt))).map Int64.ofInt = some n
    rw [integerWithin?_of_le n.minValue_le_toInt n.toInt_le, Option.map_some, Int64.ofInt_toInt]

/-- A size is read back if it has 64 bits. -/
theorem ofJson?_toJson_nat (n : Nat) :
    ofJson? (toJson n) = if n < UInt64.size then some n else none :=
  naturalBelow?_ofNat n UInt64.size

/-! ## Truth values, lists and what may be absent -/

instance : LawfulForm Bool where
  ofJson?_toJson _ := rfl

/-- The items of an array are read back if each is. -/
theorem mapM_ofJson?_map_toJson {α : Type} [JsonForm α] [LawfulForm α] (items : List α) :
    (items.map toJson).mapM ofJson? = some items := by
  induction items with
  | nil => rfl
  | cons item items ih => simp [List.mapM_cons, ih]

instance {α : Type} [JsonForm α] [LawfulForm α] : LawfulForm (List α) where
  ofJson?_toJson := mapM_ofJson?_map_toJson

instance : LawfulForm Hash256 where
  ofJson?_toJson hash := by
    show (ofJson? (toJson hash.bytes) : Option Bytes).bind Hash256.ofBytes? = some hash
    rw [LawfulForm.ofJson?_toJson, Option.bind_some, Hash256.ofBytes?_bytes]

/-- A value that is there is told from one that is not, if it is not written as nothing. -/
theorem ofJson?_toJson_some {α : Type} [JsonForm α] {value : α}
    (present : toJson value ≠ .null) :
    (ofJson? (toJson (some value)) : Option (Option α)) =
      (ofJson? (toJson value)).map some := by
  show ofJson? (toJson value) = _
  cases written : toJson value with
  | null => exact absurd written present
  | _ => rfl

/-! ## Records -/

variable {fields : List RecordField} {values : List Json}

theorem written_zip (names : List String) (values : List Json) :
    written (names.zip values) = (names.map some).zip values := by
  induction names generalizing values with
  | nil => rfl
  | cons name names ih =>
      cases values with
      | nil => rfl
      | cons value values => exact congrArg ((some name, value) :: ·) (ih values)

/-- A record that is written gives each field its value, under its name. -/
theorem given_zip (width : values.length = fields.length) :
    Given fields values ((names fields).zip values) := by
  induction fields generalizing values with
  | nil =>
      rw [List.length_eq_zero_iff.mp width]
      exact .nil
  | cons field fields ih =>
      cases values with
      | nil => cases width
      | cons value values => exact .member (ih (Nat.succ.inj width))

/-- A record gives back the values of its fields. -/
theorem fields?_record (distinct : (names fields).Nodup) (width : values.length = fields.length) :
    fields? fields (record fields values) = some values := by
  have members : (fields.map fun field => some field.name).zip values =
      written ((names fields).zip values) := by
    rw [written_zip, names, List.map_map]
    rfl
  rw [record, fields?_object_eq_some_iff distinct]
  exact ⟨_, _, [], members, given_zip width, by simp, by simp⟩

/-- A record is read as what the values of its fields are put together to. -/
theorem bind_fields?_record {α : Type} {assemble : List Json → Option α} {result : Option α}
    (fields : List RecordField) (values : List Json)
    (distinct : (names fields).Nodup) (width : values.length = fields.length)
    (assembled : assemble values = result) :
    (fields? fields (record fields values)).bind assemble = result := by
  rw [fields?_record distinct width, Option.bind_some, assembled]

end Json

/-! ## Values of one form only -/

/-- A value is read from nothing but what it is written as. -/
class ExactForm (α : Type) [JsonForm α] : Prop where
  eq_toJson : ∀ {json : Json} {value : α}, ofJson? json = some value → json = toJson value

/-- Where the form is the only one, reading and writing undo each other. -/
theorem ofJson?_eq_some_iff {α : Type} [JsonForm α] [LawfulForm α] [ExactForm α] {json : Json}
    {value : α} : ofJson? json = some value ↔ json = toJson value := by
  constructor
  · exact ExactForm.eq_toJson
  · rintro rfl
    exact LawfulForm.ofJson?_toJson value

/-- Only numbers below the bound are read as words. -/
theorem number_of_naturalBelow? {bound n : Nat} {json : Json}
    (read : json.naturalBelow? bound = some n) : json = .number (some n) ∧ n < bound := by
  obtain ⟨integer, within, rfl⟩ := Option.map_eq_some_iff.mp read
  unfold integerWithin? at within
  split at within
  · split_ifs at within with inside
    cases within
    rw [Int.toNat_of_nonneg inside.1]
    exact ⟨rfl, by omega⟩
  · cases within

instance : ExactForm UInt32 where
  eq_toJson := by
    intro json value read
    obtain ⟨n, natural, rfl⟩ := Option.map_eq_some_iff.mp read
    obtain ⟨rfl, small⟩ := number_of_naturalBelow? natural
    show _ = Json.number (some (UInt32.ofNat n).toNat)
    rw [UInt32.toNat_ofNat_of_lt' small]

instance : ExactForm UInt64 where
  eq_toJson := by
    intro json value read
    obtain ⟨n, natural, rfl⟩ := Option.map_eq_some_iff.mp read
    obtain ⟨rfl, small⟩ := number_of_naturalBelow? natural
    show _ = Json.number (some (UInt64.ofNat n).toNat)
    rw [UInt64.toNat_ofNat_of_lt' small]

instance : ExactForm Bool where
  eq_toJson := by
    intro json value read
    cases json with
    | bool b =>
        cases read
        rfl
    | _ => cases read

end MergedMining
