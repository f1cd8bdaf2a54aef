/-
Module: MergedMining.MerkleBranch
Purpose: Merkle branches as they are carried by merge-mined blocks.
Trusted boundary: none
Main exports: MerkleBranch, MerkleBranch.encode, MerkleBranch.read
-/
import MergedMining.Wire.CompactSize

namespace MergedMining

open Wire

/-- The siblings on the way from a leaf of a hash tree to its root, and on which side each
stands. -/
structure MerkleBranch where
  hashes : List Hash256
  /-- Bit `i` tells the side of hash `i`. -/
  sideMask : UInt32
deriving Repr, DecidableEq

namespace MerkleBranch

/-- The most hashes that a branch may have. -/
def maxLength : Nat := 30

/-- The branch of a tree that is a single leaf. -/
def empty : MerkleBranch := ⟨[], 0⟩

def encode (branch : MerkleBranch) : Bytes :=
  (encodeLength branch.hashes ++ branch.hashes.flatMap Hash256.bytes)
    ++ Bytes.ofNatLE 4 branch.sideMask.toNat

def read : Read MerkleBranch := do
  let hashes ← readMany readHash (← readLength "merkle branch hash" maxLength)
  let sideMask ← readUInt32
  return { hashes, sideMask }

end MerkleBranch

end MergedMining
