/-
Module: MergedMining.Proofs.ReadLaws
Purpose: Which bytes a successful read passes over, for the reads that all others are made of.
Trusted boundary: none
Main exports: Wire.Cursor.Passes, Wire.Cursor.Passes.eq_advance, Wire.Cursor.passes_append_iff,
  Wire.Cursor.exists_start_passes_iff, Wire.Read.bind_eq_ok_iff, Wire.Read.bind_eq_error_iff,
  Wire.Read.startingAt_eq_ok_iff, Wire.readExactly_eq_ok_iff, Wire.readExactly_eq_error_iff,
  Wire.readMany_eq_ok_iff
-/
import MergedMining.Wire.Cursor

/-!
The law of a read is an equivalence: it succeeds with a value and stops at a cursor exactly when the
wire form of the value leads from where it started to that cursor.  One direction says that nothing
but the wire form is accepted, the other that the wire form is accepted whatever follows it.

`Passes` splits along concatenations just as a read splits along `bind`, so the law of a compound
read follows from those of its parts, field by field.
-/

namespace MergedMining.Wire

namespace Cursor

section Advance

variable (cursor : Cursor)

@[simp] theorem advance_zero : cursor.advance 0 = cursor := rfl

/-- To skip bytes is to move on by their number. -/
@[simp] theorem position_advance (count : Nat) :
    (cursor.advance count).position = cursor.position + count := rfl

/-- What is skipped does not remain. -/
@[simp] theorem remaining_advance (count : Nat) :
    (cursor.advance count).remaining = cursor.remaining - count := List.length_drop

@[simp] theorem advance_advance (count further : Nat) :
    (cursor.advance count).advance further = cursor.advance (count + further) := by
  simp only [advance, Nat.add_assoc, List.drop_drop]

end Advance

/-- Passing over `bytes` leads from one cursor to the other. -/
structure Passes (start : Cursor) (bytes : Bytes) (stop : Cursor) : Prop where
  rest : start.rest = bytes ++ stop.rest
  position : stop.position = start.position + bytes.length

variable {start stop : Cursor}

/-- Where one stops depends on the number of bytes passed over only. -/
theorem Passes.eq_advance {bytes : Bytes} (passes : start.Passes bytes stop) :
    stop = start.advance bytes.length := by
  rcases stop with ⟨position, rest⟩
  obtain ⟨split, rfl⟩ := passes
  rw [advance, split, List.drop_left]

/-- To pass over no bytes is to stay. -/
theorem passes_nil_iff : start.Passes [] stop ↔ start = stop := by
  constructor
  · intro passes
    rcases passes with ⟨rest, position⟩
    cases start
    cases stop
    simp_all
  · intro same
    cases same
    exact ⟨rfl, rfl⟩

/-- To pass over two stretches is to pass over one and then the other, with a cursor between. -/
theorem passes_append_iff {front back : Bytes} :
    start.Passes (front ++ back) stop ↔
      ∃ middle, start.Passes front middle ∧ middle.Passes back stop := by
  constructor
  · intro passes
    rcases passes with ⟨rest, position⟩
    refine ⟨⟨start.position + front.length, back ++ stop.rest⟩, ⟨?_, rfl⟩, ⟨rfl, ?_⟩⟩
    · rw [rest, List.append_assoc]
    · rw [position, List.length_append, Nat.add_assoc]
  · intro parts
    rcases parts with ⟨middle, first, second⟩
    constructor
    · rw [first.rest, second.rest, List.append_assoc]
    · rw [second.position, first.position, List.length_append, Nat.add_assoc]

theorem passes_cons_iff {byte : UInt8} {bytes : Bytes} :
    start.Passes (byte :: bytes) stop ↔
      ∃ middle, start.Passes [byte] middle ∧ middle.Passes bytes stop := by
  rw [← List.singleton_append, passes_append_iff]

/-- The bytes that can be passed over are those that the rest begins with. -/
theorem exists_passes_iff {bytes : Bytes} :
    (∃ stop, start.Passes bytes stop) ↔ bytes <+: start.rest := by
  constructor
  · intro passed
    rcases passed with ⟨stop, passes⟩
    exact ⟨stop.rest, passes.rest.symm⟩
  · intro front
    rcases front with ⟨rest, split⟩
    exact ⟨⟨start.position + bytes.length, rest⟩, split.symm, rfl⟩

/-! A cursor begins at an offset of a message, and the bytes that it passes over stand between that
offset and the one that it reaches. -/

/-- A cursor is had at every offset of a message, its end included, and nowhere else. -/
theorem start_eq_ok_iff {message : Bytes} {place : Nat} :
    Cursor.start message place = .ok start ↔
      place ≤ message.length ∧ start = ⟨place, message.drop place⟩ := by
  unfold Cursor.start
  by_cases inside : place ≤ message.length
  · simp [inside, eq_comm]
  · simp [inside]

theorem start_append (front back : Bytes) :
    Cursor.start (front ++ back) front.length = .ok ⟨front.length, back⟩ := by
  rw [start_eq_ok_iff, List.drop_left, List.length_append]
  exact ⟨Nat.le_add_right .., rfl⟩

/-- Passed over in a message is what stands in it between the two offsets. -/
theorem exists_start_passes_iff {message bytes : Bytes} {place : Nat} :
    (∃ start, Cursor.start message place = .ok start ∧ start.Passes bytes stop) ↔
      stop.position = place + bytes.length ∧ stop.position ≤ message.length ∧
        message.extract place stop.position = bytes ∧
        stop.rest = message.drop stop.position := by
  constructor
  · intro passed
    rcases passed with ⟨start, begun, passes⟩
    obtain ⟨inside, rfl⟩ := start_eq_ok_iff.mp begun
    have rest : message.drop place = bytes ++ stop.rest := passes.rest
    have position : stop.position = place + bytes.length := passes.position
    have room := congrArg List.length rest
    rw [List.length_drop, List.length_append] at room
    refine ⟨position, by omega, ?_, ?_⟩
    · rw [List.extract_eq_take_drop, rest, position, Nat.add_sub_cancel_left, List.take_left]
    · rw [position, ← List.drop_drop, rest, List.drop_left]
  · intro stands
    rcases stands with ⟨position, inside, taken, rest⟩
    rw [List.extract_eq_take_drop, position, Nat.add_sub_cancel_left] at taken
    have split : message.drop place = bytes ++ stop.rest := by
      have later := List.take_append_drop bytes.length (message.drop place)
      rw [taken, List.drop_drop, ← position, ← rest] at later
      exact later.symm
    exact ⟨⟨place, message.drop place⟩, start_eq_ok_iff.mpr ⟨by omega, rfl⟩, split, position⟩

end Cursor

namespace Read

variable {α β : Type} {start stop : Cursor}

theorem pure_eq_ok_iff {value result : α} :
    (pure value : Read α) start = .ok result stop ↔ value = result ∧ start = stop := by
  simp [pure, EStateM.pure]

theorem throw_ne_ok {error : DecodeError} {value : α} :
    (throw error : Read α) start ≠ .ok value stop := by
  intro thrown
  have same : EStateM.Result.error error start = EStateM.Result.ok value stop := thrown
  cases same

/-- Behind a part that was read, a compound read goes on from where the part stopped. -/
theorem bind_of_ok {read : Read α} {next : α → Read β} {value : α} {middle : Cursor}
    (accepted : read start = .ok value middle) : (read >>= next) start = next value middle := by
  simp [bind, EStateM.bind, accepted]

/-- A compound read succeeds if its first part does and what follows does behind it. -/
theorem bind_eq_ok_iff {read : Read α} {next : α → Read β} {result : β} :
    (read >>= next) start = .ok result stop ↔
      ∃ value middle, read start = .ok value middle ∧ next value middle = .ok result stop := by
  cases first : read start with
  | ok value middle =>
      rw [bind_of_ok first]
      constructor
      · intro second
        exact ⟨value, middle, rfl, second⟩
      · intro result
        rcases result with ⟨_, _, same, second⟩
        cases same
        exact second
  | error error middle =>
      simp [bind, EStateM.bind, first]

/-- A compound read fails in its first part, or in what follows behind it. -/
theorem bind_eq_error_iff {read : Read α} {next : α → Read β} {error : DecodeError} :
    (read >>= next) start = .error error stop ↔
      read start = .error error stop ∨
        ∃ value middle, read start = .ok value middle ∧ next value middle = .error error stop := by
  cases first : read start with
  | ok value middle =>
      rw [bind_of_ok first]
      constructor
      · intro second
        exact .inr ⟨value, middle, rfl, second⟩
      · intro failed
        rcases failed with same | ⟨_, _, same, second⟩
        · cases same
        · cases same
          exact second
  | error error middle =>
      simp [bind, EStateM.bind, first]

theorem pure_ne_error {value : α} {error : DecodeError} :
    (pure value : Read α) start ≠ .error error stop := by
  intro failed
  have same : EStateM.Result.ok value start = EStateM.Result.error error stop := failed
  cases same

theorem throw_eq_error_iff {error fault : DecodeError} :
    (throw error : Read α) start = .error fault stop ↔ error = fault ∧ start = stop := by
  show EStateM.Result.error error start = .error fault stop ↔ _
  rw [EStateM.Result.error.injEq]

/-- To make another value of what is read is not to fail in another way. -/
theorem map_eq_error_iff {read : Read α} {f : α → β} {error : DecodeError} :
    (read >>= fun value => pure (f value)) start = .error error stop ↔
      read start = .error error stop := by
  simp only [bind_eq_error_iff, pure_ne_error, and_false, exists_false, or_false]

/-- A value is read from an offset of a message if the offset lies in it and the read succeeds
there, wherever it stops. -/
theorem startingAt_eq_ok_iff {read : Read α} {message : Bytes} {offset : Nat} {value : α} :
    read.startingAt message offset = .ok value ↔
      offset ≤ message.length ∧
        ∃ stop, read ⟨offset, message.drop offset⟩ = .ok value stop := by
  unfold startingAt Cursor.start
  by_cases inside : offset ≤ message.length
  · cases result : read ⟨offset, message.drop offset⟩ with
    | ok value stop => simp [inside, result]
    | error error stop => simp [inside, result]
  · simp [inside]

end Read

variable {start stop : Cursor}

/-- To ask for the position does not move the cursor. -/
theorem position_eq_ok_iff {offset : Nat} :
    position start = .ok offset stop ↔ start.position = offset ∧ start = stop := by
  have stays : position start = .ok start.position start := rfl
  rw [stays, EStateM.Result.ok.injEq]

/-! Fields of a fixed width: bytes, integers and hashes. -/

/-- A field that is there in full is taken. -/
theorem readExactly_of_enough {count : Nat} {cursor : Cursor} (h : count ≤ cursor.remaining) :
    readExactly count cursor =
      .ok ⟨cursor.rest.take count, List.length_take_of_le h⟩ (cursor.advance count) := by
  have taken := readExactly_append (List.length_take_of_le h) cursor.position
    (cursor.rest.drop count)
  rw [List.take_append_drop] at taken
  exact taken

/-- The bytes that are read are the bytes that are passed over. -/
theorem readExactly_eq_ok_iff {count : Nat} {bytes : { bytes : Bytes // bytes.length = count }} :
    readExactly count start = .ok bytes stop ↔ start.Passes bytes.val stop := by
  constructor
  · intro taken
    by_cases enough : count ≤ start.remaining
    · rw [readExactly_of_enough enough] at taken
      cases taken
      refine ⟨(List.take_append_drop count start.rest).symm, ?_⟩
      rw [List.length_take_of_le enough]
      rfl
    · rw [readExactly_of_short (by omega)] at taken
      cases taken
  · intro passes
    rcases passes with ⟨rest, position⟩
    have split : start = ⟨start.position, bytes.val ++ stop.rest⟩ := by rw [← rest]
    have reached : stop = ⟨start.position + count, stop.rest⟩ := by
      rw [← bytes.property, ← position]
    rw [split, readExactly_append bytes.property, ← reached]

/-- A field that cannot be taken is cut short, and is not begun. -/
theorem readExactly_eq_error_iff {count : Nat} {error : DecodeError} :
    readExactly count start = .error error stop ↔
      start.remaining < count ∧
        error = .unexpectedEnd start.position count start.remaining ∧ start = stop := by
  by_cases short : start.remaining < count
  · rw [readExactly_of_short short, EStateM.Result.error.injEq]
    simp only [short, true_and, eq_comm]
  · rw [readExactly_of_enough (Nat.not_lt.mp short)]
    simp only [short, reduceCtorEq, false_and]

theorem readBytes_eq_ok_iff {count : Nat} {bytes : Bytes} :
    readBytes count start = .ok bytes stop ↔
      bytes.length = count ∧ start.Passes bytes stop := by
  simp only [readBytes, Read.bind_eq_ok_iff, Read.pure_eq_ok_iff, readExactly_eq_ok_iff]
  constructor
  · intro accepted
    rcases accepted with ⟨taken, _, passes, rfl, rfl⟩
    exact ⟨taken.property, passes⟩
  · intro spelled
    rcases spelled with ⟨width, passes⟩
    exact ⟨⟨bytes, width⟩, stop, passes, rfl, rfl⟩

/-- A number is read from its little-endian bytes, so it has to fit their width. -/
theorem readNat_eq_ok_iff {width n : Nat} :
    readNat width start = .ok n stop ↔
      n < Bytes.capacity width ∧ start.Passes (Bytes.ofNatLE width n) stop := by
  simp only [readNat, Read.bind_eq_ok_iff, Read.pure_eq_ok_iff, readBytes_eq_ok_iff]
  constructor
  · intro accepted
    rcases accepted with ⟨bytes, _, ⟨rfl, passes⟩, rfl, rfl⟩
    rw [Bytes.ofNatLE_toNatLE]
    exact ⟨Bytes.toNatLE_lt bytes, passes⟩
  · intro spelled
    rcases spelled with ⟨small, passes⟩
    exact ⟨_, stop, ⟨Bytes.length_ofNatLE width n, passes⟩,
      Bytes.toNatLE_ofNatLE_of_lt small, rfl⟩

/-- A number is read unless its bytes are cut short, whichever they are. -/
theorem readNat_eq_error_iff {width : Nat} {error : DecodeError} :
    readNat width start = .error error stop ↔
      start.remaining < width ∧
        error = .unexpectedEnd start.position width start.remaining ∧ start = stop := by
  rw [readNat, Read.map_eq_error_iff, readBytes, Read.map_eq_error_iff, readExactly_eq_error_iff]

/-- An integer type whose values are the numbers of a width is read by its law once and for all. -/
theorem readWord_eq_ok_iff {α : Type} {width : Nat} {ofNat : Nat → α} {toNat : α → Nat}
    (bounded : ∀ value, toNat value < Bytes.capacity width)
    (ofNat_toNat : ∀ value, ofNat (toNat value) = value)
    (toNat_ofNat : ∀ n, n < Bytes.capacity width → toNat (ofNat n) = n) {value : α} :
    (readNat width >>= fun n => pure (ofNat n)) start = .ok value stop ↔
      start.Passes (Bytes.ofNatLE width (toNat value)) stop := by
  simp only [Read.bind_eq_ok_iff, Read.pure_eq_ok_iff, readNat_eq_ok_iff]
  constructor
  · intro accepted
    rcases accepted with ⟨n, _, ⟨small, passes⟩, rfl, rfl⟩
    rw [toNat_ofNat n small]
    exact passes
  · intro passes
    exact ⟨toNat value, stop, ⟨bounded value, passes⟩, ofNat_toNat value, rfl⟩

theorem readUInt8_eq_ok_iff {value : UInt8} :
    readUInt8 start = .ok value stop ↔ start.Passes [value] stop := by
  have one : Bytes.ofNatLE 1 value.toNat = [value] := by simp [Bytes.ofNatLE]
  rw [← one]
  exact readWord_eq_ok_iff UInt8.toNat_lt (fun _ => UInt8.ofNat_toNat)
    (fun _ => UInt8.toNat_ofNat_of_lt')

theorem readUInt8_eq_error_iff {error : DecodeError} :
    readUInt8 start = .error error stop ↔
      start.remaining < 1 ∧
        error = .unexpectedEnd start.position 1 start.remaining ∧ start = stop := by
  rw [readUInt8, Read.map_eq_error_iff, readNat_eq_error_iff]

theorem readUInt32_eq_ok_iff {value : UInt32} :
    readUInt32 start = .ok value stop ↔ start.Passes (Bytes.ofNatLE 4 value.toNat) stop :=
  readWord_eq_ok_iff UInt32.toNat_lt (fun _ => UInt32.ofNat_toNat)
    (fun _ => UInt32.toNat_ofNat_of_lt')

theorem readUInt64_eq_ok_iff {value : UInt64} :
    readUInt64 start = .ok value stop ↔ start.Passes (Bytes.ofNatLE 8 value.toNat) stop :=
  readWord_eq_ok_iff UInt64.toNat_lt (fun _ => UInt64.ofNat_toNat)
    (fun _ => UInt64.toNat_ofNat_of_lt')

/-- A signed integer is read from the bytes of the word that has its bits. -/
theorem readInt32_eq_ok_iff {value : Int32} :
    readInt32 start = .ok value stop ↔
      start.Passes (Bytes.ofNatLE 4 value.toUInt32.toNat) stop := by
  simp only [readInt32, Read.bind_eq_ok_iff, Read.pure_eq_ok_iff, readUInt32_eq_ok_iff]
  constructor
  · intro accepted
    rcases accepted with ⟨word, _, passes, rfl, rfl⟩
    rw [UInt32.toUInt32_toInt32]
    exact passes
  · intro passes
    exact ⟨value.toUInt32, stop, passes, Int32.toInt32_toUInt32 value, rfl⟩

theorem readInt64_eq_ok_iff {value : Int64} :
    readInt64 start = .ok value stop ↔
      start.Passes (Bytes.ofNatLE 8 value.toUInt64.toNat) stop := by
  simp only [readInt64, Read.bind_eq_ok_iff, Read.pure_eq_ok_iff, readUInt64_eq_ok_iff]
  constructor
  · intro accepted
    rcases accepted with ⟨word, _, passes, rfl, rfl⟩
    rw [UInt64.toUInt64_toInt64]
    exact passes
  · intro passes
    exact ⟨value.toUInt64, stop, passes, Int64.toInt64_toUInt64 value, rfl⟩

/-- A hash is read from its bytes in the order in which they are kept. -/
theorem readHash_eq_ok_iff {hash : Hash256} :
    readHash start = .ok hash stop ↔ start.Passes hash.bytes stop := by
  simp only [readHash, Read.bind_eq_ok_iff, Read.pure_eq_ok_iff, readExactly_eq_ok_iff]
  constructor
  · intro accepted
    rcases accepted with ⟨taken, _, passes, rfl, rfl⟩
    exact passes
  · intro passes
    exact ⟨⟨hash.bytes, hash.length_bytes⟩, stop, passes, rfl, rfl⟩

/-! Rows of values. -/

/-- A row takes exactly the wire forms of its values, one behind the other, if each is taken by the
law of the element read. -/
theorem readMany_eq_ok_iff {α : Type} {read : Read α} {admitted : α → Prop} {encode : α → Bytes}
    (law : ∀ {start value stop},
      read start = .ok value stop ↔ admitted value ∧ start.Passes (encode value) stop)
    {count : Nat} {values : List α} :
    readMany read count start = .ok values stop ↔
      values.length = count ∧ (∀ value ∈ values, admitted value) ∧
        start.Passes (values.flatMap encode) stop := by
  induction count generalizing start stop values with
  | zero =>
      simp only [readMany, Read.pure_eq_ok_iff, List.length_eq_zero_iff]
      constructor
      · intro accepted
        rcases accepted with ⟨rfl, rfl⟩
        simp [Cursor.passes_nil_iff]
      · intro spelled
        rcases spelled with ⟨rfl, -, passes⟩
        exact ⟨rfl, Cursor.passes_nil_iff.mp passes⟩
  | succ count ih =>
      simp only [readMany, Read.bind_eq_ok_iff, Read.pure_eq_ok_iff, law, ih]
      constructor
      · intro accepted
        rcases accepted with ⟨first, _, ⟨good, head⟩, others, _, ⟨rfl, allGood, tail⟩, rfl, rfl⟩
        refine ⟨rfl, List.forall_mem_cons.mpr ⟨good, allGood⟩, ?_⟩
        rw [List.flatMap_cons, Cursor.passes_append_iff]
        exact ⟨_, head, tail⟩
      · intro spelled
        rcases spelled with ⟨width, allGood, passes⟩
        cases values with
        | nil => cases width
        | cons first others =>
            rw [List.flatMap_cons, Cursor.passes_append_iff] at passes
            rcases passes with ⟨middle, head, tail⟩
            obtain ⟨good, othersGood⟩ := List.forall_mem_cons.mp allGood
            exact ⟨first, middle, ⟨good, head⟩, others, stop,
              ⟨Nat.succ.inj width, othersGood, tail⟩, rfl, rfl⟩

end MergedMining.Wire
