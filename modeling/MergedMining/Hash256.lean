/-
Module: MergedMining.Hash256
Purpose: 32-byte hashes in their internal order, and their customary display.
Trusted boundary: none
Main exports: Hash256, Hash256.ofBytes?, Hash256.zero, Hash256.display
-/
import MergedMining.Bytes.Hex

namespace MergedMining

/-- A 256-bit hash, its bytes in the order in which they are hashed and sent. -/
structure Hash256 where
  bytes : Bytes
  length_bytes : bytes.length = 32
deriving Repr, DecidableEq

namespace Hash256

/-- The number of bytes of a hash. -/
def size : Nat := 32

/-- A byte string is a hash exactly when it has 32 bytes. -/
def ofBytes? (bytes : Bytes) : Option Hash256 :=
  if h : bytes.length = 32 then some ⟨bytes, h⟩ else none

/-- The hash of 32 zero bytes, which stands where there is nothing to refer to. -/
def zero : Hash256 := ⟨List.replicate 32 0, by simp⟩

instance : Inhabited Hash256 := ⟨zero⟩

@[ext] theorem ext {a b : Hash256} (h : a.bytes = b.bytes) : a = b := by
  cases a
  cases b
  cases h
  rfl

theorem ofBytes?_bytes (hash : Hash256) : ofBytes? hash.bytes = some hash := by
  simp [ofBytes?, hash.length_bytes]

/-- Block explorers show a hash as hexadecimal with its last byte first. -/
def display (hash : Hash256) : String := Bytes.toHex hash.bytes.reverse

end Hash256

end MergedMining
