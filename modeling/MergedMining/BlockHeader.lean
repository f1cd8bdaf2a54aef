/-
Module: MergedMining.BlockHeader
Purpose: The 80-byte header that both chains use, its wire form and its identity hash.
Trusted boundary: none
Main exports: BlockHeader, BlockHeader.encode, BlockHeader.read, BlockHeader.hash,
  BlockHeader.scryptHash
-/
import MergedMining.Hashing.Functions
import MergedMining.Version
import MergedMining.Wire.Cursor

namespace MergedMining

/-- The header of a block of either chain. -/
structure BlockHeader where
  version : Version
  /-- The identity hash of the block before this one. -/
  previous : Hash256
  merkleRoot : Hash256
  /-- Seconds since the beginning of 1970, by the miner's clock. -/
  time : UInt32
  /-- The difficulty target in its compact form. -/
  bits : UInt32
  nonce : UInt32
deriving Repr, DecidableEq, Inhabited

namespace BlockHeader

/-- The number of bytes of a header. -/
def size : Nat := 80

/-- The wire form: the fields in order, integers little-endian. -/
def encode (header : BlockHeader) : Bytes :=
  Bytes.ofNatLE 4 header.version.word.toNat
    ++ header.previous.bytes
    ++ header.merkleRoot.bytes
    ++ Bytes.ofNatLE 4 header.time.toNat
    ++ Bytes.ofNatLE 4 header.bits.toNat
    ++ Bytes.ofNatLE 4 header.nonce.toNat

/-- Every header has 80 bytes. -/
theorem length_encode (header : BlockHeader) : header.encode.length = size := by
  simp [encode, size, Hash256.length_bytes]

open Wire in
/-- The header at the cursor. -/
def read : Read BlockHeader := do
  let version ← readUInt32
  let previous ← readHash
  let merkleRoot ← readHash
  let time ← readUInt32
  let bits ← readUInt32
  let nonce ← readUInt32
  return { version := ⟨version⟩, previous, merkleRoot, time, bits, nonce }

/-- A block is identified by the double SHA-256 of its header. -/
def hash (hashing : HashFunctions) (header : BlockHeader) : Hash256 :=
  hashing.doubleSha256 header.encode

/-- The hash by which some chains identify blocks instead. -/
def scryptHash (hashing : HashFunctions) (header : BlockHeader) : Except Rejection Hash256 :=
  hashing.scryptHash header.encode

/-- The chain that the block declares itself part of. -/
def chainId (header : BlockHeader) : UInt32 := header.version.chainId

/-- Whether parent-chain evidence follows the header. -/
def isAuxPow (header : BlockHeader) : Bool := header.version.isAuxPow

end BlockHeader

end MergedMining
