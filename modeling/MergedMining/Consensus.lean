/-
Module: MergedMining.Consensus
Purpose: Everything that a client of one network asks of merge-mined blocks, in one place.
Trusted boundary: none
Main exports: Consensus, Consensus.ofDocument, Consensus.decodeHeader, Consensus.checkProofOfWork,
  Consensus.acceptHeader, Consensus.parentBlockHash
-/
import MergedMining.Document

/-!
A client is bound to the rules of one network when it is set up, and afterwards passes blocks only.
The rules come from the description of the network or are given.
-/

namespace MergedMining

/-- The checks of merge-mined blocks, bound to the rules of a network. -/
structure Consensus where
  network : Network
deriving Repr, DecidableEq

namespace Consensus

/-- The checks of the network that a text describes. -/
def ofDocument (complaint : String → String) (text : String) : Except Rejection Consensus := do
  let network ← Network.ofDocument complaint text
  return { network }

/-- The chain that a version declares a block part of, on whatever network. -/
def chainId (_ : Consensus) (version : Version) : UInt32 := version.chainId

/-- The block at an offset of a message, with evidence if its header is flagged. -/
def decodeHeader (_ : Consensus) (message : Bytes) (offset : Nat) : Except Rejection AuxBlock :=
  AuxBlock.decode message offset

/-- The evidence of a block shows work for the network. -/
def checkProofOfWork (consensus : Consensus) (block : AuxBlock) : Except Rejection Unit :=
  block.verify consensus.network

/-- The network takes the block. -/
def acceptHeader (consensus : Consensus) (block : AuxBlock) : Except Rejection Unit :=
  block.accept consensus.network

/-- The identity hash of the parent block by the network's algorithm. -/
def parentBlockHash (hashing : HashFunctions) (consensus : Consensus) (block : AuxBlock) :
    Except Rejection Hash256 :=
  block.parentHash hashing consensus.network

end Consensus

end MergedMining
