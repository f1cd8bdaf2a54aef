/-
Module: MergedMining.Proofs.Diagnostics
Purpose: What a fault of a message says about the message is so.
Trusted boundary: none
Main exports: Wire.DecodeError.TrueOf, Wire.Cursor.Within, Wire.Truthful, Wire.Truthful.bind,
  Wire.Truthful.startingAt, Wire.Truthful.fieldByField, AuxBlock.read_truthful,
  AuxBlock.decode_diagnostics_truthful
-/
import MergedMining.Proofs.CanonicalCode
import MergedMining.Proofs.MessageSurroundings

/-!
A fault is reported with numbers: where a field was due and how many bytes of it are missing, where
an integer is spelled too long, how many of something were announced.  Whoever looks there finds in
the message what the fault says.

Every read moves its cursor within the message only, and reports faults of the place where the
cursor is.  Both hold of the reads of single fields and pass through `bind`, so a fault is as true
of the message when it turns up deep inside a block as it is at the beginning.
-/

namespace MergedMining

namespace Wire

/-! ## What a fault says -/

/-- The message, read from an offset, is at fault in the way that the error says. -/
def DecodeError.TrueOf (message : Bytes) (offset : Nat) : DecodeError → Prop
  | .cursorOutOfRange cursor length =>
      cursor = offset ∧ length = message.length ∧ message.length < offset
  | .unexpectedEnd place needed remaining =>
      offset ≤ place ∧ place ≤ message.length ∧ remaining = message.length - place ∧
        remaining < needed ∧ needed ≤ 10000
  | .nonCanonicalVarInt place =>
      offset ≤ place ∧ place < message.length ∧
        ∃ value form, CompactSize.Overlong value form ∧ form <+: message.drop place
  | .oversizedCollection what count max =>
      max < count ∧ (what, max) ∈ limits ∧
        ∃ (value : UInt64) (place : Nat), value.toNat = count ∧ offset ≤ place ∧
          CompactSize.encode value <+: message.drop place

/-- The bytes of a script have the greatest of the limits. -/
theorem le_of_mem_limits {what : String} {max : Nat} (limited : (what, max) ∈ limits) :
    max ≤ 10000 := by
  have all : ∀ limit ∈ limits, limit.2 ≤ 10000 := by decide
  exact all _ limited

/-! ## Reads that report what is there -/

/-- The cursor is a place in the message, not before the offset. -/
structure Cursor.Within (cursor : Cursor) (message : Bytes) (offset : Nat) : Prop where
  onward : offset ≤ cursor.position
  inside : cursor.position ≤ message.length
  rest : cursor.rest = message.drop cursor.position

variable {α β : Type} {message : Bytes} {offset : Nat} {start stop : Cursor}

namespace Cursor.Within

/-- What remains at a place of the message is what the message has behind it. -/
theorem remaining (within : start.Within message offset) :
    start.remaining = message.length - start.position := by
  rw [Cursor.remaining, within.rest, List.length_drop]

/-- The bytes that are passed over are bytes of the message. -/
theorem passes {bytes : Bytes} (within : start.Within message offset)
    (passed : start.Passes bytes stop) : stop.Within message offset := by
  obtain ⟨onward, inside, rest⟩ := within
  have split : message.drop start.position = bytes ++ stop.rest := rest.symm.trans passed.rest
  have room := congrArg List.length split
  rw [List.length_drop, List.length_append] at room
  have reached := passed.position
  refine ⟨by omega, by omega, ?_⟩
  rw [reached, ← List.drop_drop, split, List.drop_left]

end Cursor.Within

/-- Wherever in a message the read starts, it stops in the message or reports a fault that is true
of it. -/
structure Truthful (read : Read α) : Prop where
  stays {message : Bytes} {offset : Nat} {start stop : Cursor} {value : α} :
    start.Within message offset → read start = .ok value stop → stop.Within message offset
  reports {message : Bytes} {offset : Nat} {start stop : Cursor} {error : DecodeError} :
    start.Within message offset → read start = .error error stop → error.TrueOf message offset

namespace Truthful

variable {read : Read α} {next : α → Read β}

theorem pure (value : α) : Truthful (Pure.pure value : Read α) where
  stays within accepted := by
    obtain ⟨_, rfl⟩ := Read.pure_eq_ok_iff.mp accepted
    exact within
  reports _ refused := absurd refused Read.pure_ne_error

theorem position : Truthful Wire.position where
  stays within accepted := by
    obtain ⟨_, rfl⟩ := position_eq_ok_iff.mp accepted
    exact within
  reports _ refused := by cases refused

/-- The second read need only be truthful for what the first can return. -/
theorem bind_of_read (first : Truthful read)
    (second : ∀ value start stop, read start = .ok value stop → Truthful (next value)) :
    Truthful (read >>= next) where
  stays within accepted := by
    obtain ⟨value, middle, begun, ended⟩ := Read.bind_eq_ok_iff.mp accepted
    exact (second value _ _ begun).stays (first.stays within begun) ended
  reports within refused := by
    rcases Read.bind_eq_error_iff.mp refused with failed | ⟨value, middle, begun, failed⟩
    · exact first.reports within failed
    · exact (second value _ _ begun).reports (first.stays within begun) failed

/-- Faults of the second read are true of the message since the first one stopped in it. -/
theorem bind (first : Truthful read) (second : ∀ value, Truthful (next value)) :
    Truthful (read >>= next) :=
  first.bind_of_read fun value _ _ _ => second value

/-- No field is longer than the longest script. -/
theorem readExactly {count : Nat} (short : count ≤ 10000) : Truthful (Wire.readExactly count) where
  stays within accepted := within.passes (readExactly_eq_ok_iff.mp accepted)
  reports within refused := by
    obtain ⟨missing, rfl, _⟩ := readExactly_eq_error_iff.mp refused
    exact ⟨within.onward, within.inside, within.remaining, missing, short⟩

/-- From an offset of a message, an offset past its end being a fault in itself. -/
theorem startingAt (truthful : Truthful read) {error : DecodeError}
    (refused : read.startingAt message offset = .error error) : error.TrueOf message offset := by
  by_cases inside : offset ≤ message.length
  · have begun : Cursor.Within ⟨offset, message.drop offset⟩ message offset :=
      ⟨Nat.le_refl offset, inside, rfl⟩
    simp only [Read.startingAt, Cursor.start, if_pos inside] at refused
    cases outcome : read ⟨offset, message.drop offset⟩ with
    | ok value stop =>
        rw [outcome] at refused
        cases refused
    | error fault stop =>
        rw [outcome] at refused
        cases refused
        exact truthful.reports begun outcome
  · simp only [Read.startingAt, Cursor.start, if_neg inside] at refused
    cases refused
    exact ⟨rfl, rfl, Nat.not_le.mp inside⟩

/-- Only where no reader can start is an offset reported as out of range. -/
theorem out_of_range_iff (truthful : Truthful read) :
    (∃ cursor length, read.startingAt message offset = .error (.cursorOutOfRange cursor length)) ↔
      message.length < offset := by
  constructor
  · intro refused
    rcases refused with ⟨cursor, length, refused⟩
    exact (truthful.startingAt refused).2.2
  · intro outside
    refine ⟨offset, message.length, ?_⟩
    simp only [Read.startingAt, Cursor.start, if_neg (Nat.not_le.mpr outside)]

end Truthful

/-! ## Compact sizes -/

/-- An overlong form has its first byte at least. -/
theorem CompactSize.Overlong.ne_nil {value : UInt64} {form : Bytes}
    (overlong : Overlong value form) : form ≠ [] := by
  rcases overlong with ⟨_, _, _, _, _, rfl, _⟩
  exact List.cons_ne_nil _ _

/-- The place of an overlong form is noted before it is read, so it is the place of its first
byte. -/
theorem CompactSize.read_truthful : Truthful CompactSize.read where
  stays within accepted := within.passes (read_eq_ok_iff.mp accepted)
  reports := by
    intro message offset start stop error within refused
    cases read_eq_error_iff.mp refused with
    | empty nothing =>
        have none : 0 = message.length - start.position := by
          rw [← within.remaining, Cursor.remaining, nothing]
          rfl
        exact ⟨within.onward, within.inside, none, Nat.one_pos, by decide⟩
    | cutShort wide marked short =>
        have middle := within.passes marked
        refine ⟨middle.onward, middle.inside, middle.remaining, short, ?_⟩
        cases wide <;> decide
    | overlong =>
        obtain ⟨_, value, form, overlong, stands⟩ := read_overlong_iff.mp ⟨stop, refused⟩
        rw [within.rest] at stands
        refine ⟨within.onward, ?_, value, form, overlong, stands⟩
        have there := List.length_pos_iff.mpr overlong.ne_nil
        have most := stands.length_le
        rw [List.length_drop] at most
        omega

/-! ## Fields behind their counts -/

section Counted

variable {what : String} {max : Nat} (limited : (what, max) ∈ limits)
include limited

/-- The count that is refused is the one that stands before the place where the read stopped. -/
theorem readLength_truthful : Truthful (readLength what max) where
  stays within accepted := by
    have fits : max < UInt64.size := Nat.lt_of_le_of_lt (le_of_mem_limits limited) (by decide)
    exact within.passes ((readLength_eq_ok_iff fits).mp accepted).2
  reports := by
    intro message offset start stop error within refused
    rcases readLength_eq_error_iff.mp refused with failed | ⟨value, passes, oversized, rfl⟩
    · exact CompactSize.read_truthful.reports within failed
    · have stands := Cursor.exists_passes_iff.mp ⟨stop, passes⟩
      rw [within.rest] at stands
      exact ⟨oversized, limited, value, start.position, rfl, within.onward, stands⟩

/-- The bytes that are asked for were counted before, and their number was admitted. -/
theorem readVarBytes_truthful : Truthful (readVarBytes what max) := by
  apply (readLength_truthful limited).bind_of_read
  intro count start stop counted
  have most := le_of_mem_limits limited
  have fits : max < UInt64.size := Nat.lt_of_le_of_lt most (by decide)
  have admitted := ((readLength_eq_ok_iff fits).mp counted).1
  have short := Nat.le_trans admitted most
  exact (Truthful.readExactly short).bind fun bytes => .pure bytes.val

end Counted

/-- All fields of a block are read truthfully, and with them the block. -/
theorem Truthful.fieldByField : FieldByField Truthful where
  pure := .pure
  bind := .bind
  readExactly narrow := .readExactly (Nat.le_trans narrow (by decide))
  readLength := readLength_truthful
  readVarBytes := readVarBytes_truthful

end Wire

open Wire

theorem Evidence.read_truthful : Truthful Evidence.read := Truthful.fieldByField.evidence .position

theorem AuxBlock.read_truthful : Truthful AuxBlock.read := Truthful.fieldByField.auxBlock .position

/-! ## Whole messages -/

section Messages

variable {α : Type} {read : Read α} {message : Bytes} {offset : Nat}

/-- Nothing but the bytes of a message can be at fault when it is decoded. -/
theorem Wire.Truthful.decode (truthful : Truthful read) {rejection : Rejection}
    (refused : (read.startingAt message offset).mapError Rejection.decode = .error rejection) :
    ∃ error, rejection = .decode error ∧ error.TrueOf message offset := by
  obtain ⟨error, rfl, failed⟩ := Rejection.mapError_decode_eq_error_iff.mp refused
  exact ⟨error, rfl, truthful.startingAt failed⟩

/-- A decoder reports that an offset is out of range exactly if it is. -/
theorem Wire.Truthful.decode_out_of_range_iff (truthful : Truthful read) :
    (∃ cursor length, (read.startingAt message offset).mapError Rejection.decode =
        .error (.decode (.cursorOutOfRange cursor length))) ↔
      message.length < offset := by
  simp only [Rejection.mapError_decode_eq_error_iff, Rejection.decode.injEq, exists_eq_left]
  exact truthful.out_of_range_iff

/-- The offset just past a header that was read lies in the message. -/
theorem BlockHeader.size_le_of_read {header : BlockHeader}
    (accepted : BlockHeader.read.startingAt message offset = .ok header) :
    offset + BlockHeader.size ≤ message.length := by
  obtain ⟨inside, stop, read⟩ := Read.startingAt_eq_ok_iff.mp accepted
  obtain ⟨within, _⟩ := Cursor.start_eq_ok_iff.mp (AuxBlock.start_of_header_read inside read)
  rw [(read_eq_ok_iff.mp read).position, header.length_encode] at within
  exact within

/-- Evidence that is sought inside a message is not out of its range. -/
theorem Evidence.decodeFor_in_range {header : BlockHeader} {cursor length : Nat}
    (inside : offset ≤ message.length) :
    Evidence.decodeFor header message offset ≠
      .error (.decode (.cursorOutOfRange cursor length)) := by
  cases flag : header.isAuxPow with
  | false =>
      simp only [Evidence.decodeFor, flag, Bool.false_eq_true, if_false, ne_eq, reduceCtorEq,
        not_false_eq_true]
  | true =>
      simp only [Evidence.decodeFor, flag, if_true]
      cases outcome : Evidence.decode message offset with
      | ok evidence =>
          intro refused
          cases refused
      | error rejection =>
          intro refused
          cases refused
          have outside := Evidence.read_truthful.decode_out_of_range_iff.mp ⟨_, _, outcome⟩
          exact Nat.not_lt.mpr inside outside

end Messages

namespace AuxBlock

/-- When a block or evidence is not decoded, the bytes are at fault, and in the way that is
reported: the numbers in the fault are those of the message.  Only an offset past the end of the
message is out of range, and the offset at which the evidence is sought behind a header never is. -/
theorem decode_diagnostics_truthful (message : Bytes) (offset : Nat) :
    (∀ rejection,
      decode message offset = .error rejection ∨
          Evidence.decode message offset = .error rejection →
        ∃ error, rejection = .decode error ∧ error.TrueOf message offset) ∧
    ((∃ cursor length,
        decode message offset = .error (.decode (.cursorOutOfRange cursor length))) ↔
      message.length < offset) ∧
    ((∃ cursor length,
        Evidence.decode message offset = .error (.decode (.cursorOutOfRange cursor length))) ↔
      message.length < offset) ∧
    ∀ header, BlockHeader.read.startingAt message offset = .ok header →
      ∀ cursor length, Evidence.decodeFor header message (offset + BlockHeader.size) ≠
        .error (.decode (.cursorOutOfRange cursor length)) := by
  rw [decode_eq_startingAt_read]
  refine ⟨?diagnosed, read_truthful.decode_out_of_range_iff,
    Evidence.read_truthful.decode_out_of_range_iff, ?behind⟩
  case diagnosed =>
    intro rejection refused
    rcases refused with blockRefused | evidenceRefused
    · exact read_truthful.decode blockRefused
    · exact Evidence.read_truthful.decode evidenceRefused
  case behind =>
    intro header accepted cursor length
    exact Evidence.decodeFor_in_range (BlockHeader.size_le_of_read accepted)

/-- A flagged header behind one other byte, with the version of a transaction and an input count of
five that is written in three bytes. -/
def misspelled : Bytes := 7 :: scripted.header.encode ++ [1, 0, 0, 0, 0xfd, 5, 0]

/-- The count stands at offset 85, and is refused there. -/
theorem decode_diagnostics_truthful_of_misspelled :
    decode misspelled 1 = .error (.decode (.nonCanonicalVarInt 85)) ∧
      DecodeError.TrueOf misspelled 1 (.nonCanonicalVarInt 85) ∧
      BlockHeader.read.startingAt misspelled 1 = .ok scripted.header ∧
      Evidence.decodeFor scripted.header misspelled 81 ≠
        .error (.decode (.cursorOutOfRange 81 88)) := by
  have refused : decode misspelled 1 = .error (.decode (.nonCanonicalVarInt 85)) := rfl
  have headed : BlockHeader.read.startingAt misspelled 1 = .ok scripted.header := rfl
  obtain ⟨diagnosed, -, -, behind⟩ := decode_diagnostics_truthful misspelled 1
  obtain ⟨_, same, told⟩ := diagnosed _ (.inl refused)
  cases same
  exact ⟨refused, told, headed, behind _ headed 81 88⟩

end AuxBlock

end MergedMining
