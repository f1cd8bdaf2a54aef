/-
Module: MergedMining.Wire.DecodeError
Purpose: What can be wrong with a message, and how that is worded.
Trusted boundary: none
Main exports: Wire.DecodeError, Wire.DecodeError.message
-/

namespace MergedMining.Wire

/-- Why the bytes of a message are not what should stand there.  Offsets count from the first byte
of the whole message. -/
inductive DecodeError where
  /-- The message ends inside a field: at `offset`, `needed` bytes were due and `remaining` left. -/
  | unexpectedEnd (offset needed remaining : Nat)
  /-- The variable-length integer at `offset` is written longer than its value needs. -/
  | nonCanonicalVarInt (offset : Nat)
  /-- A length announces more of something than is admitted. -/
  | oversizedCollection (what : String) (count max : Nat)
  /-- Reading was to start past the end of the message. -/
  | cursorOutOfRange (cursor length : Nat)
deriving Repr, DecidableEq

/-- The wording of a decode error. -/
def DecodeError.message : DecodeError → String
  | .unexpectedEnd offset needed remaining =>
      s!"unexpected end of data at offset {offset}: needed {needed} bytes, {remaining} remaining"
  | .nonCanonicalVarInt offset => s!"non-canonical var-int at offset {offset}"
  | .oversizedCollection what count max => s!"{what} count {count} exceeds maximum {max}"
  | .cursorOutOfRange cursor length => s!"cursor {cursor} is beyond message length {length}"

end MergedMining.Wire
