/-
Module: MergedMining.Bytes
Purpose: Byte strings and the little-endian integers written in them.
Trusted boundary: none
Main exports: Bytes, Bytes.ofNatLE, Bytes.toNatLE, Bytes.capacity, Bytes.toNatLE_ofNatLE,
  Bytes.ofNatLE_toNatLE
-/

/-!
Messages, scripts and hashes are lists of octets.  An integer of a fixed width is written with its
least significant byte first.  The two conversions are inverse on the numbers that fit the width,
in both directions, so a field has exactly one spelling.
-/

namespace MergedMining

/-- A byte string, first byte first. -/
abbrev Bytes := List UInt8

namespace Bytes

/-- The `width` low bytes of a number, least significant first; higher bytes are dropped. -/
def ofNatLE : (width : Nat) → Nat → Bytes
  | 0, _ => []
  | width + 1, n => UInt8.ofNat n :: ofNatLE width (n / 256)

/-- The number that a byte string spells, least significant byte first. -/
def toNatLE : Bytes → Nat
  | [] => 0
  | byte :: rest => byte.toNat + 256 * toNatLE rest

/-- How many numbers a width has room for. -/
def capacity : (width : Nat) → Nat
  | 0 => 1
  | width + 1 => 256 * capacity width

@[simp] theorem length_ofNatLE (width n : Nat) : (ofNatLE width n).length = width := by
  induction width generalizing n with
  | zero => rfl
  | succ width ih => simp [ofNatLE, ih]

theorem toNatLE_ofNatLE (width n : Nat) : toNatLE (ofNatLE width n) = n % capacity width := by
  induction width generalizing n with
  | zero => simp [ofNatLE, toNatLE, capacity, Nat.mod_one]
  | succ width ih =>
      have step : n % (256 * capacity width) = n % 256 + 256 * (n / 256 % capacity width) :=
        Nat.mod_mul
      simp only [ofNatLE, toNatLE, ih, UInt8.toNat_ofNat', capacity]
      omega

theorem toNatLE_ofNatLE_of_lt {width n : Nat} (h : n < capacity width) :
    toNatLE (ofNatLE width n) = n := by
  rw [toNatLE_ofNatLE, Nat.mod_eq_of_lt h]

theorem toNatLE_lt (bytes : Bytes) : toNatLE bytes < capacity bytes.length := by
  induction bytes with
  | nil => exact Nat.zero_lt_one
  | cons byte rest ih =>
      have := byte.toNat_lt
      simp only [toNatLE, List.length_cons, capacity]
      omega

theorem ofNatLE_toNatLE (bytes : Bytes) : ofNatLE bytes.length (toNatLE bytes) = bytes := by
  induction bytes with
  | nil => rfl
  | cons byte rest ih =>
      have small := byte.toNat_lt
      have low : UInt8.ofNat (byte.toNat + 256 * toNatLE rest) = byte := by
        apply UInt8.toNat_inj.mp
        simp only [UInt8.toNat_ofNat']
        omega
      have high : (byte.toNat + 256 * toNatLE rest) / 256 = toNatLE rest := by omega
      simp [toNatLE, ofNatLE, low, high, ih]

end Bytes

end MergedMining
