/-
Module: MergedMining.Rejection
Purpose: The reasons for which a merge-mined block, or a description of a network, is refused.
Trusted boundary: none
Main exports: Rejection, Rejection.message, Rejection.noEvidence, Rejection.illFormedEvidence,
  Rejection.noInput
-/
import MergedMining.Wire.DecodeError

namespace MergedMining

/-- Why something is refused. -/
inductive Rejection where
  /-- The block belongs to another chain than the network's. -/
  | wrongChainId (actual expected : UInt32)
  /-- The parent block declares itself part of the network's own chain. -/
  | parentSharesChainId (chainId : UInt32)
  /-- The parent's coinbase script has the marker at two offsets. -/
  | duplicateMarker (first second : Nat)
  /-- The input with the marker spends an earlier output. -/
  | parentNotCoinbase (offset : Nat)
  /-- The network demands the marker, and the script has none. -/
  | missingMarker
  /-- The evidence is absent or cannot be checked. -/
  | malformed (reason : String)
  /-- The network takes no merge-mined blocks. -/
  | disabled
  /-- The network takes no merge-mined blocks yet. -/
  | notStarted (time start : UInt64)
  /-- The message is not that of a block. -/
  | decode (error : Wire.DecodeError)
  /-- A hash could not be computed. -/
  | hashing (reason : String)
  /-- The description of a network cannot be used. -/
  | config (reason : String)
deriving Repr, DecidableEq

namespace Rejection

/-- The block has no evidence at all. -/
def noEvidence : Rejection := .malformed "block carries no AuxPoW payload"

/-- The evidence lacks an input to search, or a branch is too long. -/
def illFormedEvidence : Rejection :=
  .malformed "parent coinbase has no inputs or a merkle branch is too long"

/-- The parent's coinbase has no input to search. -/
def noInput : Rejection := .malformed "parent coinbase has no inputs"

/-- The wording of a rejection. -/
def message : Rejection → String
  | .wrongChainId actual expected =>
      s!"Merged-mine block does not have the correct chain ID, current ID: {actual} expected: {expected}"
  | .parentSharesChainId chainId =>
      s!"Merged-mine block aux POW parent has our chain ID: {chainId}"
  | .duplicateMarker first second =>
      s!"Multiple merged mining headers in coinbase: first at offset {first}, second at offset {second}"
  | .parentNotCoinbase offset =>
      s!"Parent coinbase transaction not an actual coinbase transaction (merged mining header at offset {offset})"
  | .missingMarker => "Parent coinbase script does not contain a merged mining header"
  | .malformed reason => s!"Malformed AuxPoW: {reason}"
  | .disabled => "Merged mining is not enabled on this network"
  | .notStarted time start =>
      s!"Merged-mine block at time {time} precedes merged mining start time {start}"
  | .decode error => s!"Decode error: {error.message}"
  | .hashing reason => s!"Hashing failed: {reason}"
  | .config reason => s!"Invalid configuration: {reason}"

end Rejection

end MergedMining
