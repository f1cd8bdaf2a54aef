/-
Module: MergedMining.Network
Purpose: The merged-mining rules of one network.
Trusted boundary: none
Main exports: PowAlgorithm, PowAlgorithm.hash, Network, Network.of, Network.startingAt,
  Network.withoutMergedMining, Network.requiringMarker
-/
import MergedMining.BlockHeader

namespace MergedMining

/-- The hash by which a network identifies its parent blocks. -/
inductive PowAlgorithm where
  | scrypt
  /-- Double SHA-256. -/
  | sha256d
  /-- No particular choice, which also means double SHA-256. -/
  | unspecified
deriving Repr, DecidableEq, Inhabited

/-- The hash of a block by an algorithm. -/
def PowAlgorithm.hash (hashing : HashFunctions) (algorithm : PowAlgorithm) (header : BlockHeader) :
    Except Rejection Hash256 :=
  match algorithm with
  | .scrypt => header.scryptHash hashing
  | .sha256d => .ok (header.hash hashing)
  | .unspecified => .ok (header.hash hashing)

/-- The rules of a network. -/
structure Network where
  /-- The chain to which the network's own blocks belong. -/
  chainId : UInt32
  /-- Whether merge-mined blocks are taken at all. -/
  mergedMining : Bool
  /-- The block time, in seconds since the beginning of 1970, from which they are taken. -/
  startTime : UInt64
  algorithm : PowAlgorithm
  /-- Whether the parent's coinbase must have the marker. -/
  markerRequired : Bool
deriving Repr, DecidableEq

namespace Network

/-- A network that takes merge-mined blocks from the beginning, with or without the marker. -/
def of (chainId : UInt32) (algorithm : PowAlgorithm) : Network where
  chainId
  mergedMining := true
  startTime := 0
  algorithm
  markerRequired := false

/-- The same rules with another start time. -/
def startingAt (network : Network) (time : UInt64) : Network := { network with startTime := time }

/-- The same rules, but no merge-mined block is taken. -/
def withoutMergedMining (network : Network) : Network := { network with mergedMining := false }

/-- The same rules, and the marker must be there. -/
def requiringMarker (network : Network) : Network := { network with markerRequired := true }

end Network

end MergedMining
