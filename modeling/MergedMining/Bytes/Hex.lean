/-
Module: MergedMining.Bytes.Hex
Purpose: Lowercase hexadecimal text of a byte string.
Trusted boundary: that a supplied encoder writes bytes as this text
Main exports: Bytes.hexDigits, Bytes.toHex
-/
import MergedMining.Bytes

namespace MergedMining.Bytes

/-- Two digits for each byte, the high half first. -/
def hexDigits (bytes : Bytes) : List Char :=
  bytes.flatMap fun byte => [(byte.toNat / 16).digitChar, (byte.toNat % 16).digitChar]

/-- Lowercase hexadecimal, two digits for each byte. -/
def toHex (bytes : Bytes) : String := String.ofList (hexDigits bytes)

theorem hexDigits_cons (byte : UInt8) (rest : Bytes) :
    hexDigits (byte :: rest) =
      (byte.toNat / 16).digitChar :: (byte.toNat % 16).digitChar :: hexDigits rest := by
  simp [hexDigits]

@[simp] theorem length_hexDigits (bytes : Bytes) :
    (hexDigits bytes).length = 2 * bytes.length := by
  induction bytes with
  | nil => rfl
  | cons byte rest ih =>
      rw [hexDigits_cons]
      simp [ih]
      omega

end MergedMining.Bytes
