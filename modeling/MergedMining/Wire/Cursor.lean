/-
Module: MergedMining.Wire.Cursor
Purpose: A forward-only place in a message, and the reads of fixed-width fields from it.
Trusted boundary: none
Main exports: Wire.Cursor, Wire.Cursor.start, Wire.Read, Wire.Read.startingAt,
  Wire.readExactly, Wire.readBytes, Wire.readNat, Wire.readHash, Wire.readMany
-/
import MergedMining.Hash256
import MergedMining.Wire.DecodeError

/-!
A read is a state action on a cursor which may fail.  A failed read keeps the cursor that it had
reached, so a reader may go on after a failure: a field of a fixed width is taken whole or not at
all, while a compound read stops where its failing part left the cursor.
-/

namespace MergedMining.Wire

/-- A place in a message: how many bytes lie before it, and the bytes not yet read. -/
structure Cursor where
  position : Nat
  rest : Bytes
deriving Repr, DecidableEq

namespace Cursor

/-- The number of bytes not yet read. -/
def remaining (cursor : Cursor) : Nat := cursor.rest.length

/-- The cursor past the next `count` bytes. -/
def advance (cursor : Cursor) (count : Nat) : Cursor :=
  ⟨cursor.position + count, cursor.rest.drop count⟩

/-- The cursor at an offset of a message; the offset just past the last byte is still one. -/
def start (message : Bytes) (offset : Nat) : Except DecodeError Cursor :=
  if offset ≤ message.length then
    .ok ⟨offset, message.drop offset⟩
  else
    .error (.cursorOutOfRange offset message.length)

end Cursor

/-- An action that takes bytes at a cursor, and keeps the cursor also when it fails. -/
abbrev Read := EStateM DecodeError Cursor

/-- What a read yields from an offset of a message. -/
def Read.startingAt {α : Type} (read : Read α) (message : Bytes) (offset : Nat) :
    Except DecodeError α :=
  match Cursor.start message offset with
  | .error error => .error error
  | .ok cursor =>
      match read cursor with
      | .ok value _ => .ok value
      | .error error _ => .error error

/-- The offset reached. -/
def position : Read Nat := return (← get).position

/-- The next `count` bytes, all of them or none. -/
def readExactly (count : Nat) : Read { bytes : Bytes // bytes.length = count } := fun cursor =>
  let taken := cursor.rest.take count
  if enough : taken.length = count then
    .ok ⟨taken, enough⟩ (cursor.advance count)
  else
    .error (.unexpectedEnd cursor.position count cursor.remaining) cursor

/-- The next `count` bytes as a byte string. -/
def readBytes (count : Nat) : Read Bytes := return (← readExactly count).val

/-- The unsigned integer in the next `width` bytes. -/
def readNat (width : Nat) : Read Nat := return (← readBytes width).toNatLE

/-! Integers are little-endian, and signed ones are in two's complement. -/

def readUInt8 : Read UInt8 := return UInt8.ofNat (← readNat 1)

def readUInt16 : Read UInt16 := return UInt16.ofNat (← readNat 2)

def readUInt32 : Read UInt32 := return UInt32.ofNat (← readNat 4)

def readUInt64 : Read UInt64 := return UInt64.ofNat (← readNat 8)

def readInt32 : Read Int32 := return (← readUInt32).toInt32

def readInt64 : Read Int64 := return (← readUInt64).toInt64

/-- The next 32 bytes, in the order in which they stand. -/
def readHash : Read Hash256 := do
  let ⟨bytes, length_bytes⟩ ← readExactly 32
  return ⟨bytes, length_bytes⟩

/-- `count` values in a row. -/
def readMany {α : Type} (read : Read α) : (count : Nat) → Read (List α)
  | 0 => return []
  | count + 1 => do
      let first ← read
      let others ← readMany read count
      return first :: others

/-! Every field of a fixed width is read through `readExactly`, which these two laws determine. -/

/-- A field that stands in full at the cursor is taken, and nothing after it. -/
theorem readExactly_append {count : Nat} {bytes : Bytes} (width : bytes.length = count)
    (position : Nat) (rest : Bytes) :
    readExactly count ⟨position, bytes ++ rest⟩ =
      .ok ⟨bytes, width⟩ ⟨position + count, rest⟩ := by
  subst width
  simp [readExactly, Cursor.advance]

/-- A field that is cut short is not begun. -/
theorem readExactly_of_short {count : Nat} {cursor : Cursor} (h : cursor.remaining < count) :
    readExactly count cursor =
      .error (.unexpectedEnd cursor.position count cursor.remaining) cursor := by
  have short : ¬ (cursor.rest.take count).length = count := by
    simp only [Cursor.remaining] at h
    simp only [List.length_take]
    omega
  simp only [readExactly, short, dite_false]

end MergedMining.Wire
