/-
Module: MergedMining.Evidence
Purpose: The parent-chain evidence attached to a merge-mined header, and its wire form.
Trusted boundary: none
Main exports: Evidence, Evidence.of, Evidence.encode, Evidence.read, Evidence.decode,
  Evidence.WithinLimits, Evidence.isWellFormed, Evidence.markedInput
-/
import MergedMining.BlockHeader
import MergedMining.MerkleBranch
import MergedMining.Rejection
import MergedMining.Transaction

/-!
Evidence shows that the work behind a block was done on another chain: the parent's header and its
coinbase transaction, which commits to the child block, with a branch from the coinbase to the
parent's merkle root and one from the child block to the committed root.  The branches are carried
for the caller and are not folded here.

On the wire the evidence follows the child header: coinbase, parent hash, the two branches, and the
parent header.
-/

namespace MergedMining

open Wire

/-- The evidence of a merge-mined block. -/
structure Evidence where
  parent : BlockHeader
  /-- The coinbase transaction of the parent block. -/
  coinbase : Transaction
  /-- The parent's hash as the miner wrote it; nothing depends on it. -/
  parentHash : Hash256
  /-- From the coinbase to the parent's merkle root. -/
  coinbaseBranch : MerkleBranch
  /-- From the child block to the root in the coinbase script. -/
  chainBranch : MerkleBranch
  /-- The offset just past the evidence in the message that it was read from, otherwise 0. -/
  stop : Nat
  /-- The number of bytes that it took in that message, otherwise 0. -/
  length : Nat
deriving Repr, DecidableEq

namespace Evidence

/-- Evidence put together in memory, with empty branches. -/
def of (hashing : HashFunctions) (parent : BlockHeader) (coinbase : Transaction) : Evidence where
  parent
  coinbase
  parentHash := parent.hash hashing
  coinbaseBranch := .empty
  chainBranch := .empty
  stop := 0
  length := 0

def withBranches (evidence : Evidence) (coinbaseBranch chainBranch : MerkleBranch) : Evidence :=
  { evidence with coinbaseBranch, chainBranch }

/-- The wire form. -/
def encode (evidence : Evidence) : Bytes :=
  evidence.coinbase.encode
    ++ evidence.parentHash.bytes
    ++ evidence.coinbaseBranch.encode
    ++ evidence.chainBranch.encode
    ++ evidence.parent.encode

/-- The evidence at the cursor, with the place where it stood. -/
def read : Read Evidence := do
  let start ← position
  let coinbase ← Transaction.read
  let parentHash ← readHash
  let coinbaseBranch ← MerkleBranch.read
  let chainBranch ← MerkleBranch.read
  let parent ← BlockHeader.read
  let stop ← position
  return {
    parent, coinbase, parentHash, coinbaseBranch, chainBranch, stop, length := stop - start }

/-- The evidence at an offset of a message. -/
def decode (message : Bytes) (offset : Nat) : Except Rejection Evidence :=
  (read.startingAt message offset).mapError .decode

/-- The evidence that follows a header, read from an offset of a message.  Without the flag there
is none, and the message is not looked at. -/
def decodeFor (header : BlockHeader) (message : Bytes) (offset : Nat) :
    Except Rejection (Option Evidence) :=
  if header.isAuxPow then
    some <$> decode message offset
  else
    .ok none

/-- The evidence that can be read. -/
structure WithinLimits (evidence : Evidence) : Prop where
  coinbase : evidence.coinbase.WithinLimits
  coinbaseBranch : evidence.coinbaseBranch.hashes.length ≤ MerkleBranch.maxLength
  chainBranch : evidence.chainBranch.hashes.length ≤ MerkleBranch.maxLength

/-- The input of the parent's coinbase whose script is searched for the marker. -/
def coinbaseInput? (evidence : Evidence) : Option TxInput := evidence.coinbase.inputs.head?

/-- The coinbase has an input and neither branch is too long. -/
def isWellFormed (evidence : Evidence) : Bool :=
  evidence.coinbaseInput?.isSome
    && evidence.coinbaseBranch.hashes.length ≤ MerkleBranch.maxLength
    && evidence.chainBranch.hashes.length ≤ MerkleBranch.maxLength

/-- The input whose script is searched, which well-formed evidence has. -/
def markedInput (evidence : Evidence) : Except Rejection TxInput :=
  match evidence.coinbaseInput? with
  | some input => .ok input
  | none => .error .noInput

end Evidence

end MergedMining
