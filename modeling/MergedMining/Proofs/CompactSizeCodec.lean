/-
Module: MergedMining.Proofs.CompactSizeCodec
Purpose: Reading inverts writing for compact sizes, and for lengths and byte strings behind them.
Trusted boundary: none
Main exports: Wire.CompactSize.Wide, Wire.CompactSize.read_eq_ok_iff,
  Wire.CompactSize.length_encode_pos, Wire.readLength_eq_ok_iff, Wire.readLength_eq_error_iff,
  Wire.readVarBytes_eq_ok_iff
-/
import MergedMining.Proofs.ReadLaws
import MergedMining.Wire.CompactSize

namespace MergedMining.Wire

variable {start stop : Cursor}

namespace CompactSize

/-- The forms with a body: the first byte, the width of the body, and the least value that is
written in it. -/
inductive Wide : (first : UInt8) → (width least : Nat) → Prop where
  | two : Wide 0xfd 2 0xfd
  | four : Wide 0xfe 4 0x10000
  | eight : Wide 0xff 8 0x100000000

variable {first : UInt8} {width least : Nat} {value : UInt64}

/-- None of the wide forms has room for more than 64 bits. -/
theorem Wide.capacity_le (wide : Wide first width least) :
    Bytes.capacity width ≤ UInt64.size := by
  cases wide <;> decide

/-- A first byte is the value itself, or announces one of the wide forms. -/
theorem first_cases (first : UInt8) :
    first.toNat < 0xfd ∨ ∃ width least, Wide first width least := by
  have bound := first.toNat_lt
  by_cases two : first = 0xfd
  · exact .inr ⟨2, 0xfd, two ▸ .two⟩
  · by_cases four : first = 0xfe
    · exact .inr ⟨4, 0x10000, four ▸ .four⟩
    · by_cases eight : first = 0xff
      · exact .inr ⟨8, 0x100000000, eight ▸ .eight⟩
      · simp only [← UInt8.toNat_inj, UInt8.reduceToNat] at two four eight
        exact .inl (by omega)

/-- Each value is written in one byte, or needs one of the wider forms and has room in it. -/
theorem value_cases (value : UInt64) :
    value.toNat < 0xfd ∨ ∃ first width least, Wide first width least ∧
      least ≤ value.toNat ∧ value.toNat < Bytes.capacity width := by
  by_cases one : value.toNat < 0xfd
  · exact .inl one
  · right
    by_cases two : value.toNat < 0x10000
    · exact ⟨_, _, _, .two, Nat.not_lt.mp one, two⟩
    · by_cases four : value.toNat < 0x100000000
      · exact ⟨_, _, _, .four, Nat.not_lt.mp two, four⟩
      · exact ⟨_, _, _, .eight, Nat.not_lt.mp four, value.toNat_lt⟩

/-! ## Writing -/

/-- A value below 0xfd is written as one byte. -/
theorem encode_of_lt (room : value.toNat < 0xfd) : encode value = [value.toUInt8] := by
  have one : value < 0xfd := UInt64.lt_iff_toNat_lt.mpr room
  rw [encode, if_pos one]

/-- A value that needs a wide form and has room in it is written in that form. -/
theorem encode_of_wide (wide : Wide first width least) (needs : least ≤ value.toNat)
    (room : value.toNat < Bytes.capacity width) :
    encode value = first :: Bytes.ofNatLE width value.toNat := by
  have notOne : ¬ value < 0xfd := by
    -- no wide form is needed for less than the values of one byte
    have floor : 0xfd ≤ least := by cases wide <;> decide
    rw [UInt64.lt_iff_toNat_lt]
    exact Nat.not_lt.mpr (Nat.le_trans floor needs)
  rw [encode, if_neg notOne]
  cases wide with
  | two =>
      have two : value ≤ 0xffff := UInt64.le_iff_toNat_le.mpr (Nat.le_of_lt_succ room)
      rw [if_pos two]
  | four =>
      have notTwo : ¬ value ≤ 0xffff := by
        rw [UInt64.le_iff_toNat_le]
        exact Nat.not_le.mpr needs
      have four : value ≤ 0xffffffff := UInt64.le_iff_toNat_le.mpr (Nat.le_of_lt_succ room)
      rw [if_neg notTwo, if_pos four]
  | eight =>
      have notTwo : ¬ value ≤ 0xffff := by
        rw [UInt64.le_iff_toNat_le]
        exact Nat.not_le.mpr (Nat.le_trans (by decide) needs)
      have notFour : ¬ value ≤ 0xffffffff := by
        rw [UInt64.le_iff_toNat_le]
        exact Nat.not_le.mpr needs
      rw [if_neg notTwo, if_neg notFour]

/-- No value is written in no bytes. -/
theorem length_encode_pos (value : UInt64) : 0 < (encode value).length := by
  rcases value_cases value with one | ⟨first, width, least, wide, needs, room⟩
  · rw [encode_of_lt one]
    exact Nat.zero_lt_one
  · rw [encode_of_wide wide needs room]
    exact Nat.succ_pos _

/-! ## Reading -/

variable {middle : Cursor}

/-- A first byte that announces no body is the value. -/
theorem read_of_narrow (narrow : first.toNat < 0xfd) (marked : start.Passes [first] middle) :
    read start = .ok first.toUInt64 middle := by
  have noMarker : first ≠ 0xff ∧ first ≠ 0xfe ∧ first ≠ 0xfd := by
    simp only [ne_eq, ← UInt8.toNat_inj, UInt8.reduceToNat]
    omega
  obtain ⟨notEight, notFour, notTwo⟩ := noMarker
  refine (Read.bind_of_ok (position_eq_ok_iff.mpr ⟨rfl, rfl⟩)).trans ?_
  refine (Read.bind_of_ok (readUInt8_eq_ok_iff.mpr marked)).trans ?_
  rw [if_neg notEight, if_neg notFour, if_neg notTwo]
  rfl

/-- Behind the first byte of a wide form its body is read. -/
theorem read_of_wide (wide : Wide first width least) (marked : start.Passes [first] middle) :
    read start = readBody start.position width least middle := by
  refine (Read.bind_of_ok (position_eq_ok_iff.mpr ⟨rfl, rfl⟩)).trans ?_
  refine (Read.bind_of_ok (readUInt8_eq_ok_iff.mpr marked)).trans ?_
  cases wide with
  | two => rfl
  | four => rfl
  | eight => rfl

/-- A body is accepted for the values that need its width and have room in it. -/
theorem readBody_eq_ok_iff {place : Nat} (fits : Bytes.capacity width ≤ UInt64.size) :
    readBody place width least start = .ok value stop ↔
      least ≤ value.toNat ∧ value.toNat < Bytes.capacity width ∧
        start.Passes (Bytes.ofNatLE width value.toNat) stop := by
  simp only [readBody, Read.bind_eq_ok_iff, readNat_eq_ok_iff]
  constructor
  · intro accepted
    rcases accepted with ⟨n, middle, ⟨room, passes⟩, checked⟩
    by_cases short : n < least
    · rw [if_pos short] at checked
      exact absurd checked Read.throw_ne_ok
    · rw [if_neg short, Read.pure_eq_ok_iff] at checked
      rcases checked with ⟨rfl, rfl⟩
      rw [UInt64.toNat_ofNat_of_lt' (Nat.lt_of_lt_of_le room fits)]
      exact ⟨Nat.not_lt.mp short, room, passes⟩
  · intro spelled
    rcases spelled with ⟨long, room, passes⟩
    refine ⟨value.toNat, stop, ⟨room, passes⟩, ?_⟩
    rw [if_neg (Nat.not_lt.mpr long), Read.pure_eq_ok_iff]
    exact ⟨UInt64.ofNat_toNat, rfl⟩

/-- What is read is the shortest form of the value. -/
theorem passes_of_read (accepted : read start = .ok value stop) :
    start.Passes (encode value) stop := by
  have parts := accepted
  simp only [read, Read.bind_eq_ok_iff, readUInt8_eq_ok_iff, position_eq_ok_iff] at parts
  rcases parts with ⟨_, _, ⟨rfl, rfl⟩, first, middle, marked, _⟩
  rcases first_cases first with narrow | ⟨width, least, wide⟩
  · rw [read_of_narrow narrow marked] at accepted
    cases accepted
    have one : first.toUInt64.toNat < 0xfd := by
      rw [UInt8.toNat_toUInt64]
      exact narrow
    rw [encode_of_lt one, UInt8.toUInt8_toUInt64]
    exact marked
  · rw [read_of_wide wide marked, readBody_eq_ok_iff wide.capacity_le] at accepted
    rcases accepted with ⟨needs, room, body⟩
    rw [encode_of_wide wide needs room]
    exact Cursor.passes_cons_iff.mpr ⟨middle, marked, body⟩

/-- The shortest form of a value is read, whatever follows it. -/
theorem read_of_passes (passes : start.Passes (encode value) stop) :
    read start = .ok value stop := by
  rcases value_cases value with one | ⟨first, width, least, wide, needs, room⟩
  · have low : value.toUInt8.toNat = value.toNat := by
      rw [UInt64.toNat_toUInt8]
      omega
    have same : value.toUInt8.toUInt64 = value := by
      rw [← UInt64.toNat_inj, UInt8.toNat_toUInt64, low]
    rw [encode_of_lt one] at passes
    rw [read_of_narrow (low ▸ one) passes, same]
  · rw [encode_of_wide wide needs room] at passes
    obtain ⟨middle, marked, body⟩ := Cursor.passes_cons_iff.mp passes
    rw [read_of_wide wide marked]
    exact (readBody_eq_ok_iff wide.capacity_le).mpr ⟨needs, room, body⟩

/-- A compact size is accepted in its shortest form and in no other. -/
theorem read_eq_ok_iff : read start = .ok value stop ↔ start.Passes (encode value) stop :=
  ⟨passes_of_read, read_of_passes⟩

end CompactSize

section Counts

variable {what : String} {max count : Nat}

/-- A count is a compact size that is not above its maximum. -/
theorem readLength_eq_ok_iff_exists :
    readLength what max start = .ok count stop ↔
      ∃ size : UInt64, start.Passes (CompactSize.encode size) stop ∧ size.toNat ≤ max ∧
        size.toNat = count := by
  simp only [readLength, Read.bind_eq_ok_iff, CompactSize.read_eq_ok_iff]
  constructor
  · intro accepted
    rcases accepted with ⟨size, middle, passes, checked⟩
    by_cases oversized : max < size.toNat
    · rw [if_pos oversized] at checked
      exact absurd checked Read.throw_ne_ok
    · rw [if_neg oversized, Read.pure_eq_ok_iff] at checked
      rcases checked with ⟨same, rfl⟩
      exact ⟨size, passes, Nat.not_lt.mp oversized, same⟩
  · intro counted
    rcases counted with ⟨size, passes, bounded, same⟩
    refine ⟨size, stop, passes, ?_⟩
    rw [if_neg (Nat.not_lt.mpr bounded), Read.pure_eq_ok_iff]
    exact ⟨same, rfl⟩

/-- What is no count is no compact size, or is one above the maximum, which has been read then. -/
theorem readLength_eq_error_iff {error : DecodeError} :
    readLength what max start = .error error stop ↔
      CompactSize.read start = .error error stop ∨
        ∃ size : UInt64, start.Passes (CompactSize.encode size) stop ∧ max < size.toNat ∧
          error = .oversizedCollection what size.toNat max := by
  simp only [readLength, Read.bind_eq_error_iff, CompactSize.read_eq_ok_iff]
  apply or_congr_right
  constructor
  · intro refused
    rcases refused with ⟨size, middle, passes, checked⟩
    by_cases oversized : max < size.toNat
    · rw [if_pos oversized, Read.throw_eq_error_iff] at checked
      rcases checked with ⟨rfl, rfl⟩
      exact ⟨size, passes, oversized, rfl⟩
    · rw [if_neg oversized] at checked
      exact absurd checked Read.pure_ne_error
  · intro oversized
    rcases oversized with ⟨size, passes, many, rfl⟩
    refine ⟨size, stop, passes, ?_⟩
    rw [if_pos many, Read.throw_eq_error_iff]
    exact ⟨rfl, rfl⟩

/-- A count is accepted up to its maximum, which a compact size has room for. -/
theorem readLength_eq_ok_iff (fits : max < UInt64.size) :
    readLength what max start = .ok count stop ↔
      count ≤ max ∧ start.Passes (CompactSize.encode (UInt64.ofNat count)) stop := by
  rw [readLength_eq_ok_iff_exists]
  constructor
  · intro counted
    rcases counted with ⟨size, passes, bounded, rfl⟩
    rw [UInt64.ofNat_toNat]
    exact ⟨bounded, passes⟩
  · intro spelled
    rcases spelled with ⟨bounded, passes⟩
    have kept : (UInt64.ofNat count).toNat = count :=
      UInt64.toNat_ofNat_of_lt' (Nat.lt_of_le_of_lt bounded fits)
    exact ⟨UInt64.ofNat count, passes, Nat.le_trans (Nat.le_of_eq kept) bounded, kept⟩

end Counts

/-- Bytes behind their length are read if there are not too many of them. -/
theorem readVarBytes_eq_ok_iff {what : String} {max : Nat} {bytes : Bytes}
    (fits : max < UInt64.size) :
    readVarBytes what max start = .ok bytes stop ↔
      bytes.length ≤ max ∧ start.Passes (encodeVarBytes bytes) stop := by
  simp only [readVarBytes, Read.bind_eq_ok_iff, readLength_eq_ok_iff fits, readBytes_eq_ok_iff,
    encodeVarBytes, encodeLength, Cursor.passes_append_iff]
  constructor
  · intro accepted
    rcases accepted with ⟨_, middle, ⟨bounded, counted⟩, rfl, body⟩
    exact ⟨bounded, middle, counted, body⟩
  · intro spelled
    rcases spelled with ⟨bounded, middle, counted, body⟩
    exact ⟨bytes.length, middle, ⟨bounded, counted⟩, rfl, body⟩

end MergedMining.Wire
