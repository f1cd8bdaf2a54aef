/-
Module: MergedMining.AuxBlock
Purpose: Merge-mined blocks: their wire form, their verification and their acceptance.
Trusted boundary: none
Main exports: AuxBlock, AuxBlock.decode, AuxBlock.verify, AuxBlock.accept, AuxBlock.parentHash
-/
import MergedMining.Coinbase
import MergedMining.Evidence
import MergedMining.Network

/-!
A block is a child header with or without evidence.  Read from a message, it has evidence exactly
when its version is flagged; put together in memory or read from a document it may have either
without the other, and the rules below cover that as well.

Verification compares chain ids and the marks in the parent's coinbase; whether the parent's hash
meets its target is left to the caller.  Acceptance puts the activation rules of the network before
verification.
-/

namespace MergedMining

open Wire

/-- The header of a block of the child chain, with its evidence. -/
structure AuxBlock where
  header : BlockHeader
  evidence : Option Evidence
deriving Repr, DecidableEq

namespace AuxBlock

/-- The block at an offset of a message.  Its evidence is sought in the message anew, at the offset
which the header was read up to. -/
def decode (message : Bytes) (offset : Nat) : Except Rejection AuxBlock := do
  let start ← (Cursor.start message offset).mapError .decode
  match BlockHeader.read start with
  | .error error _ => throw (.decode error)
  | .ok header behind =>
      let evidence ← Evidence.decodeFor header message behind.position
      return { header, evidence }

/-- The wire form: the header, and the evidence if there is any. -/
def encode (block : AuxBlock) : Bytes :=
  block.header.encode ++ (block.evidence.map Evidence.encode).getD []

/-- There is evidence, and it is well formed. -/
def isValid (block : AuxBlock) : Bool := block.evidence.any Evidence.isWellFormed

/-- The chain that the block declares itself part of. -/
def chainId (block : AuxBlock) : UInt32 := block.header.chainId

/-- The offset just past the evidence in the message that it was read from; 0 without one. -/
def stop (block : AuxBlock) : Nat := (block.evidence.map Evidence.stop).getD 0

/-- The number of bytes of the evidence in that message; 0 without one. -/
def evidenceLength (block : AuxBlock) : Nat := (block.evidence.map Evidence.length).getD 0

/-- Whether two blocks were solved in the same second, by which blocks count as equal. -/
def sameTime (a b : AuxBlock) : Bool := a.header.time == b.header.time

/-- The evidence that a verification can work with. -/
def checkedEvidence (block : AuxBlock) : Except Rejection Evidence :=
  match block.evidence with
  | none => .error .noEvidence
  | some evidence => if evidence.isWellFormed then .ok evidence else .error .illFormedEvidence

/-- The evidence shows work on another chain that commits to this chain. -/
def verify (network : Network) (block : AuxBlock) : Except Rejection Unit := do
  let evidence ← block.checkedEvidence
  if block.chainId ≠ network.chainId then
    throw (.wrongChainId block.chainId network.chainId)
  else if evidence.parent.chainId = network.chainId then
    throw (.parentSharesChainId evidence.parent.chainId)
  else
    let input ← evidence.markedInput
    let found ← Coinbase.check input
    if found.isNone && network.markerRequired then
      throw .missingMarker
    else
      return ()

/-- The network takes the block.  One without flag and evidence is not merge-mined and passes. -/
def accept (network : Network) (block : AuxBlock) : Except Rejection Unit :=
  let time := block.header.time.toUInt64
  if !block.header.isAuxPow && block.evidence.isNone then
    .ok ()
  else if !network.mergedMining then
    .error .disabled
  else if time < network.startTime then
    .error (.notStarted time network.startTime)
  else
    block.verify network

/-- The identity hash of the parent block by the network's algorithm. -/
def parentHash (hashing : HashFunctions) (network : Network) (block : AuxBlock) :
    Except Rejection Hash256 :=
  match block.evidence with
  | none => .error .noEvidence
  | some evidence => network.algorithm.hash hashing evidence.parent

end AuxBlock

end MergedMining
