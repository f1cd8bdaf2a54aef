/-
Module: MergedMining.Wire.CompactSize
Purpose: Variable-length integers, and the lengths and byte strings counted by them.
Trusted boundary: none
Main exports: Wire.CompactSize.encode, Wire.CompactSize.read, Wire.readLength, Wire.readVarBytes,
  Wire.encodeVarBytes
-/
import MergedMining.Wire.Cursor

/-!
A compact size is one byte for the values below `0xfd`; for larger ones a marker byte announces two,
four or eight little-endian bytes.  Each value is written in the shortest form that holds it, and
reading refuses every longer one, so a value has one spelling.
-/

namespace MergedMining.Wire

namespace CompactSize

/-- The shortest form that holds the value. -/
def encode (value : UInt64) : Bytes :=
  if value < 0xfd then
    [value.toUInt8]
  else if value ≤ 0xffff then
    0xfd :: Bytes.ofNatLE 2 value.toNat
  else if value ≤ 0xffffffff then
    0xfe :: Bytes.ofNatLE 4 value.toNat
  else
    0xff :: Bytes.ofNatLE 8 value.toNat

/-- The body of a form whose marker stands at `start`: `width` bytes which hold at least `least`,
the smallest value that no shorter form holds. -/
def readBody (start width least : Nat) : Read UInt64 := do
  let value ← readNat width
  if value < least then
    throw (.nonCanonicalVarInt start)
  else
    return UInt64.ofNat value

/-- A compact size at the cursor.  The marker byte is taken before its body is looked at. -/
def read : Read UInt64 := do
  let start ← position
  let first ← readUInt8
  if first = 0xff then
    readBody start 8 0x100000000
  else if first = 0xfe then
    readBody start 4 0x10000
  else if first = 0xfd then
    readBody start 2 0xfd
  else
    return first.toUInt64

end CompactSize

/-- A count of `what`, at most `max` of them. -/
def readLength (what : String) (max : Nat) : Read Nat := do
  let count := (← CompactSize.read).toNat
  if max < count then
    throw (.oversizedCollection what count max)
  else
    return count

/-- A byte string behind its length. -/
def readVarBytes (what : String) (max : Nat) : Read Bytes := do
  readBytes (← readLength what max)

/-- The compact size of a list's length. -/
def encodeLength {α : Type} (items : List α) : Bytes :=
  CompactSize.encode (UInt64.ofNat items.length)

/-- A byte string behind its length. -/
def encodeVarBytes (bytes : Bytes) : Bytes := encodeLength bytes ++ bytes

end MergedMining.Wire
