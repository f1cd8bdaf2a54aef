/-
Module: MergedMining.Version
Purpose: The three things that a merge-mined block version packs into one word.
Trusted boundary: none
Main exports: Version, Version.chainId, Version.isAuxPow, Version.base, Version.pack
-/

/-!
A version word carries, from the low end: the base protocol version in bits 0 to 7, the flag that
evidence follows the header in bit 8, seven bits without meaning, and the chain id from bit 16 on.
-/

namespace MergedMining

/-- A block version, as the word stands in the header. -/
structure Version where
  word : UInt32
deriving Repr, DecidableEq, Inhabited

namespace Version

/-- The bit which says that parent-chain evidence follows the header. -/
def auxPowFlag : UInt32 := 0x100

/-- The weight of the chain id: it occupies the bits from 16 on. -/
def chainStart : UInt32 := 0x10000

/-- The chain that a block declares itself part of. -/
def chainId (version : Version) : UInt32 := version.word / chainStart

/-- Whether parent-chain evidence follows the header. -/
def isAuxPow (version : Version) : Bool := version.word &&& auxPowFlag != 0

/-- The protocol version without the flag and the chain id. -/
def base (version : Version) : UInt32 := version.word % auxPowFlag

/-- The version word of a chain, on top of a base version.  Only the low 16 bits of the chain id
and the low 8 bits of the base have room. -/
def pack (chainId base : UInt32) (isAuxPow : Bool) : Version :=
  ⟨chainId * chainStart ||| base % auxPowFlag ||| if isAuxPow then auxPowFlag else 0⟩

end Version

end MergedMining
