/-
Module: MergedMining.Proofs.CanonicalCode
Purpose: Rows of compact sizes are read back, and bytes that are none are refused for what they are.
Trusted boundary: none
Main exports: Wire.CompactSize.Misread, Wire.CompactSize.read_eq_error_iff,
  Wire.CompactSize.Overlong, Wire.CompactSize.read_overlong_iff, Wire.CompactSize.CutShort,
  Wire.CompactSize.read_cutShort_iff, Wire.CompactSize.writeAll, Wire.CompactSize.canonical_code
-/
import MergedMining.Proofs.CompactSizeCodec

/-!
Bytes begin with the form of some value in full, or end before it does.  In full, it is the form in
which the value is written, and then the value is read, or a wider one, and then it is refused from
where it begins.  Bytes that end inside the form which their first byte announces are refused for
want of more.  So what a compact size is read as, or refused for, is known from the bytes alone, and
sizes written one behind the other are read back one by one.
-/

namespace MergedMining.Wire.CompactSize

variable {start middle stop : Cursor} {first : UInt8} {width least : Nat} {value : UInt64}

/-! ## The faults of a compact size -/

/-- A body is at fault if it is cut short, or holds a number that has a narrower form. -/
theorem readBody_eq_error_iff {place : Nat} {error : DecodeError} :
    readBody place width least start = .error error stop ↔
      (start.remaining < width ∧
        error = .unexpectedEnd start.position width start.remaining ∧ start = stop) ∨
      ∃ n, n < least ∧ n < Bytes.capacity width ∧ start.Passes (Bytes.ofNatLE width n) stop ∧
        error = .nonCanonicalVarInt place := by
  simp only [readBody, Read.bind_eq_error_iff, readNat_eq_error_iff, readNat_eq_ok_iff]
  apply or_congr_right
  constructor
  · intro refused
    rcases refused with ⟨n, middle, ⟨room, passes⟩, checked⟩
    by_cases short : n < least
    · rw [if_pos short, Read.throw_eq_error_iff] at checked
      rcases checked with ⟨rfl, rfl⟩
      exact ⟨n, short, room, passes, rfl⟩
    · rw [if_neg short] at checked
      exact absurd checked Read.pure_ne_error
  · intro overlong
    rcases overlong with ⟨n, short, room, passes, rfl⟩
    refine ⟨n, stop, ⟨room, passes⟩, ?_⟩
    rw [if_pos short, Read.throw_eq_error_iff]
    exact ⟨rfl, rfl⟩

/-- How bytes fail to begin with a compact size: the fault that is reported, and the cursor that
reading stops at. -/
inductive Misread (start : Cursor) : DecodeError → Cursor → Prop where
  /-- There is no first byte. -/
  | empty (nothing : start.rest = []) :
      Misread start (.unexpectedEnd start.position 1 0) start
  /-- The body that the first byte announces is cut short. -/
  | cutShort {first : UInt8} {width least : Nat} {middle : Cursor}
      (wide : Wide first width least) (marked : start.Passes [first] middle)
      (short : middle.remaining < width) :
      Misread start (.unexpectedEnd middle.position width middle.remaining) middle
  /-- The body holds a number that does not need it. -/
  | overlong {first : UInt8} {width least n : Nat} {stop : Cursor}
      (wide : Wide first width least) (small : n < least)
      (spelled : start.Passes (first :: Bytes.ofNatLE width n) stop) :
      Misread start (.nonCanonicalVarInt start.position) stop

/-- The numbers that do not need a wide form have room in it all the same. -/
theorem Wide.least_le_capacity (wide : Wide first width least) :
    least ≤ Bytes.capacity width := by
  cases wide <;> decide

/-- Reading fails in one of the three ways, and stops where the way of failing says. -/
theorem read_eq_error_iff {error : DecodeError} :
    read start = .error error stop ↔ Misread start error stop := by
  constructor
  · intro refused
    have parts := refused
    simp only [read, Read.bind_eq_error_iff, readUInt8_eq_error_iff, readUInt8_eq_ok_iff,
      position_eq_ok_iff] at parts
    rcases parts with failed | ⟨_, _, ⟨rfl, rfl⟩, ⟨nothing, rfl, rfl⟩ | ⟨first, middle, marked, _⟩⟩
    · cases failed
    · have empty : start.remaining = 0 := Nat.lt_one_iff.mp nothing
      rw [empty]
      exact .empty (List.length_eq_zero_iff.mp empty)
    · rcases first_cases first with narrow | ⟨width, least, wide⟩
      · rw [read_of_narrow narrow marked] at refused
        cases refused
      · rw [read_of_wide wide marked, readBody_eq_error_iff] at refused
        rcases refused with ⟨short, rfl, rfl⟩ | ⟨n, small, room, body, rfl⟩
        · exact .cutShort wide marked short
        · exact .overlong wide small (Cursor.passes_cons_iff.mpr ⟨middle, marked, body⟩)
  · intro misread
    cases misread with
    | empty nothing =>
        have none : start.remaining = 0 := List.length_eq_zero_iff.mpr nothing
        have short : readUInt8 start = .error (.unexpectedEnd start.position 1 0) start :=
          readUInt8_eq_error_iff.mpr ⟨by omega, by rw [none], rfl⟩
        refine (Read.bind_of_ok (position_eq_ok_iff.mpr ⟨rfl, rfl⟩)).trans ?_
        exact Read.bind_eq_error_iff.mpr (.inl short)
    | cutShort wide marked short =>
        rw [read_of_wide wide marked]
        exact readBody_eq_error_iff.mpr (.inl ⟨short, rfl, rfl⟩)
    | overlong wide small spelled =>
        obtain ⟨middle, marked, body⟩ := Cursor.passes_cons_iff.mp spelled
        have room := Nat.lt_of_lt_of_le small wide.least_le_capacity
        rw [read_of_wide wide marked]
        exact readBody_eq_error_iff.mpr (.inr ⟨_, small, room, body, rfl⟩)

/-! ## The faults by the bytes alone -/

/-- A complete form of the value with a body, of which the value does not need the width. -/
def Overlong (value : UInt64) (form : Bytes) : Prop :=
  ∃ first width least, Wide first width least ∧ value.toNat < Bytes.capacity width ∧
    form = first :: Bytes.ofNatLE width value.toNat ∧ (encode value).length < form.length

/-- Bytes that end inside the form which the first of them announces, or before it. -/
inductive CutShort : Bytes → Prop where
  | empty : CutShort []
  | body {first : UInt8} {width least : Nat} {body : Bytes} (wide : Wide first width least)
      (short : body.length < width) : CutShort (first :: body)

/-- How many bytes a value is written in is told by its size. -/
theorem length_encode (value : UInt64) :
    (encode value).length =
      if value.toNat < 0xfd then 1 else if value.toNat < 0x10000 then 3
        else if value.toNat < 0x100000000 then 5 else 9 := by
  rcases value_cases value with one | ⟨first, width, least, wide, needs, room⟩
  · rw [encode_of_lt one, if_pos one]
    rfl
  · rw [encode_of_wide wide needs room, List.length_cons, Bytes.length_ofNatLE]
    cases wide with
    | two =>
        have fits : value.toNat < 0x10000 := room
        rw [if_neg (Nat.not_lt.mpr needs), if_pos fits]
    | four =>
        have fits : value.toNat < 0x100000000 := room
        have notOne : ¬ value.toNat < 0xfd := by omega
        rw [if_neg notOne, if_neg (Nat.not_lt.mpr needs), if_pos fits]
    | eight =>
        have notOne : ¬ value.toNat < 0xfd := by omega
        have notTwo : ¬ value.toNat < 0x10000 := by omega
        rw [if_neg notOne, if_neg notTwo, if_neg (Nat.not_lt.mpr needs)]

/-- A value has a shorter form than one with a body exactly when it is below the least value that
is written there. -/
theorem length_encode_lt_iff (wide : Wide first width least) :
    (encode value).length < width + 1 ↔ value.toNat < least := by
  rw [length_encode]
  cases wide with
  | two => grind
  | four => grind
  | eight => grind

/-- A form is overlong if its value is below the least one that needs its width. -/
theorem overlong_iff {form : Bytes} :
    Overlong value form ↔
      ∃ first width least, Wide first width least ∧ value.toNat < least ∧
        form = first :: Bytes.ofNatLE width value.toNat := by
  constructor
  · intro overlong
    rcases overlong with ⟨first, width, least, wide, _, rfl, longer⟩
    rw [List.length_cons, Bytes.length_ofNatLE, length_encode_lt_iff wide] at longer
    exact ⟨first, width, least, wide, longer, rfl⟩
  · intro needless
    rcases needless with ⟨first, width, least, wide, small, rfl⟩
    refine ⟨first, width, least, wide, Nat.lt_of_lt_of_le small wide.least_le_capacity, rfl, ?_⟩
    rw [List.length_cons, Bytes.length_ofNatLE, length_encode_lt_iff wide]
    exact small

/-- A form is refused as too long exactly where one stands in full. -/
theorem read_overlong_iff {place : Nat} :
    (∃ stop, read start = .error (.nonCanonicalVarInt place) stop) ↔
      place = start.position ∧ ∃ value form, Overlong value form ∧ form <+: start.rest := by
  simp only [read_eq_error_iff, overlong_iff]
  constructor
  · intro refused
    rcases refused with ⟨stop, misread⟩
    cases misread with
    | @overlong first width least n _ wide small spelled =>
        have room : n < UInt64.size :=
          Nat.lt_of_lt_of_le (Nat.lt_of_lt_of_le small wide.least_le_capacity) wide.capacity_le
        have same : (UInt64.ofNat n).toNat = n := UInt64.toNat_ofNat_of_lt' room
        refine ⟨rfl, UInt64.ofNat n, _, ⟨first, width, least, wide, ?_, rfl⟩, ?_⟩
        · rw [same]
          exact small
        · rw [same]
          exact Cursor.exists_passes_iff.mp ⟨stop, spelled⟩
  · intro stands
    rcases stands with ⟨rfl, value, _, ⟨first, width, least, wide, small, rfl⟩, front⟩
    obtain ⟨stop, spelled⟩ := Cursor.exists_passes_iff.mpr front
    exact ⟨stop, .overlong wide small spelled⟩

/-- Reading runs out of bytes exactly where they end inside the form which they begin. -/
theorem read_cutShort_iff :
    (∃ place needed remaining stop,
      read start = .error (.unexpectedEnd place needed remaining) stop) ↔ CutShort start.rest := by
  simp only [read_eq_error_iff]
  constructor
  · intro starved
    rcases starved with ⟨place, needed, remaining, stop, misread⟩
    cases misread with
    | empty nothing =>
        rw [nothing]
        exact .empty
    | cutShort wide marked short =>
        rw [marked.rest]
        exact .body wide short
  · intro cut
    generalize bytes : start.rest = rest at cut
    cases cut with
    | empty => exact ⟨_, _, _, _, .empty bytes⟩
    | @body first width least body wide short =>
        have marked : start.Passes [first] ⟨start.position + 1, body⟩ := ⟨bytes, rfl⟩
        exact ⟨_, _, _, _, .cutShort wide marked short⟩

/-! ## Rows of compact sizes -/

/-- The buffer with the values written behind it, one after the other. -/
def writeAll (buffer : Bytes) (values : List UInt64) : Bytes :=
  values.foldl (fun written value => written ++ encode value) buffer

/-- Values are written behind whatever is in the buffer, each in its own form. -/
theorem writeAll_eq (buffer : Bytes) (values : List UInt64) :
    writeAll buffer values = buffer ++ values.flatMap encode := by
  induction values generalizing buffer with
  | nil => exact (List.append_nil buffer).symm
  | cons value values ih =>
      show writeAll (buffer ++ encode value) values = _
      rw [ih, List.flatMap_cons, List.append_assoc]

/-- Values in a row are read from their forms in a row. -/
theorem readMany_eq_ok_iff {count : Nat} {values : List UInt64} :
    readMany read count start = .ok values stop ↔
      values.length = count ∧ start.Passes (values.flatMap encode) stop := by
  have law : ∀ {start value stop},
      read start = .ok value stop ↔ True ∧ start.Passes (encode value) stop := by
    intro start value stop
    rw [true_and]
    exact read_eq_ok_iff
  rw [Wire.readMany_eq_ok_iff law]
  simp only [implies_true, true_and]

/-- Compact sizes are a canonical code.  Values written behind a buffer, one after the other, are
read back from there whatever follows them, and reading ends where writing did.  From any cursor, a
value is read exactly if its one wire form begins there, a form with a body that its value does not
need is refused at the place where it begins, and bytes that end inside a form are too few. -/
theorem canonical_code :
    (∀ (buffer : Bytes) (values : List UInt64) (back : Bytes), ∃ start stop,
      Cursor.start (writeAll buffer values ++ back) buffer.length = .ok start ∧
        readMany read values.length start = .ok values stop ∧
        stop.position = (writeAll buffer values).length ∧ stop.rest = back) ∧
    ∀ start : Cursor,
      (∀ value stop, read start = .ok value stop ↔ start.Passes (encode value) stop) ∧
      (∀ value, (∃ stop, read start = .ok value stop) ↔ encode value <+: start.rest) ∧
      (∀ place, (∃ stop, read start = .error (.nonCanonicalVarInt place) stop) ↔
        place = start.position ∧ ∃ value form, Overlong value form ∧ form <+: start.rest) ∧
      ((∃ place needed remaining stop,
          read start = .error (.unexpectedEnd place needed remaining) stop) ↔
        CutShort start.rest) := by
  constructor
  · intro buffer values back
    rw [writeAll_eq, List.append_assoc]
    refine ⟨_, ⟨(buffer ++ values.flatMap encode).length, back⟩, Cursor.start_append _ _,
      readMany_eq_ok_iff.mpr ⟨rfl, rfl, ?_⟩, rfl, rfl⟩
    exact List.length_append
  · intro start
    refine ⟨fun value stop => read_eq_ok_iff, ?_, fun place => read_overlong_iff,
      read_cutShort_iff⟩
    intro value
    simp only [read_eq_ok_iff]
    exact Cursor.exists_passes_iff

end MergedMining.Wire.CompactSize
