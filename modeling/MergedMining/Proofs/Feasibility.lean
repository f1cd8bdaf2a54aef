/-
Module: MergedMining.Proofs.Feasibility
Purpose: Which networks have merge-mined blocks to take at all.
Trusted boundary: none
Main exports: AuxBlock.plain, AuxBlock.verify_plain, AuxBlock.accept_plain,
  AuxBlock.exists_verify_eq_ok_iff, AuxBlock.exists_accept_eq_ok_iff, AuxBlock.verify_of_wide_chain,
  AuxBlock.networks_with_merged_blocks
-/
import MergedMining.Proofs.Activation
import MergedMining.Proofs.VersionWord

/-!
A network gives its chain id 32 bits and its start time 64, and a block has room for 16 bits of the
one and 32 of the other.  Beyond that no block can belong to the network, or be late enough for it.
Within it there is always one: its evidence is a header of the next chain, whose coinbase has the
marker and nothing else.
-/

namespace MergedMining.AuxBlock

/-! ## A block that a network takes -/

/-- The input of a coinbase that has the marker and no commitment after it. -/
def plainInput : TxInput := ⟨.null, Coinbase.marker, TxInput.finalSequence⟩

/-- The evidence that the parent chain is the next one after a chain, with a plain coinbase. -/
def plainEvidence (chainId : UInt32) : Evidence where
  parent := { (default : BlockHeader) with version := .pack (chainId + 1) 0 false }
  coinbase := ⟨1, [plainInput], [], 0⟩
  parentHash := .zero
  coinbaseBranch := .empty
  chainBranch := .empty
  stop := 0
  length := 0

/-- A block of a chain with plain evidence, solved at the latest time that a header can have. -/
def plain (chainId base : UInt32) : AuxBlock where
  header := { (default : BlockHeader) with version := .pack chainId base true, time := 0xffffffff }
  evidence := some (plainEvidence chainId)

variable {network : Network} {block : AuxBlock}

/-- The chain after a chain is another one, also after the last. -/
theorem chainId_parent_ne (chainId : UInt32) :
    (plainEvidence chainId).parent.chainId ≠ chainId := by
  intro same
  -- the successor wraps around in 32 bits and is cut to 16, and is another number either way
  have value : (chainId.toNat + 1) % 4294967296 % 65536 = chainId.toNat := by
    calc
      (chainId.toNat + 1) % 4294967296 % 65536
          = (plainEvidence chainId).parent.chainId.toNat :=
          (Version.toNat_chainId_pack (chainId + 1) 0 false).symm
      _ = chainId.toNat := congrArg UInt32.toNat same
  omega

theorem check_plainInput : Coinbase.check plainInput = .ok (some 0) := by decide

/-- Every network with a chain id of 16 bits can verify its plain block. -/
theorem verify_plain (narrow : network.chainId.toNat ≤ 65535) (base : UInt32) :
    (plain network.chainId base).verify network = .ok () := by
  have own : (plain network.chainId base).chainId = network.chainId :=
    Version.chainId_pack_of_lt (Nat.lt_succ_of_le narrow) base true
  have checked : (plain network.chainId base).checkedEvidence =
      .ok (plainEvidence network.chainId) :=
    checkedEvidence_eq_ok rfl rfl
  rw [verify_of_searched checked own (chainId_parent_ne _) rfl, check_plainInput]
  rfl

theorem not_ordinary_of_evidence {evidence : Evidence} (present : block.evidence = some evidence) :
    ¬ block.Ordinary := by
  intro ordinary
  rw [ordinary.bare] at present
  cases present

/-- A network that is enabled and starts in time takes its plain block, with or without a
demand for the marker. -/
theorem accept_plain (enabled : network.mergedMining = true)
    (early : network.startTime.toNat ≤ 4294967295) (narrow : network.chainId.toNat ≤ 65535)
    (base : UInt32) : (plain network.chainId base).accept network = .ok () :=
  accept_eq_ok_iff.mpr (.inr ⟨⟨enabled, early⟩, verify_plain narrow base⟩)

/-! ## What no block can do -/

/-- A version has 16 bits for the chain id. -/
theorem toNat_chainId_le (block : AuxBlock) : block.chainId.toNat ≤ 65535 :=
  Nat.le_of_lt_succ block.header.version.toNat_chainId_lt

theorem chainId_ne_of_wide (wide : 65535 < network.chainId.toNat) (block : AuxBlock) :
    block.chainId ≠ network.chainId := by
  intro same
  have small := block.toNat_chainId_le
  rw [same] at small
  exact Nat.not_le.mpr wide small

/-- No block belongs to a network whose chain id is too wide for a version. -/
theorem verify_of_wide_chain (wide : 65535 < network.chainId.toNat) (valid : block.isValid = true) :
    block.verify network = .error (.wrongChainId block.chainId network.chainId) := by
  obtain ⟨evidence, present, wellFormed⟩ := isValid_iff.mp valid
  exact verify_of_foreign (checkedEvidence_eq_ok present wellFormed)
    (chainId_ne_of_wide wide block)

/-- Where a block is verified, the network's chain id is that of a version. -/
theorem narrow_of_verify (passed : block.verify network = .ok ()) :
    network.chainId.toNat ≤ 65535 := by
  by_contra wide
  have foreign : Objection network block 2 _ :=
    .foreign (chainId_ne_of_wide (Nat.not_le.mp wide) block)
  exact verify_eq_ok_iff.mp passed _ _ foreign

/-! ## The networks that have blocks to take -/

/-- A network can verify some block exactly if its chain id has 16 bits. -/
theorem exists_verify_eq_ok_iff :
    (∃ block : AuxBlock, block.verify network = .ok ()) ↔ network.chainId.toNat ≤ 65535 := by
  constructor
  · intro some
    rcases some with ⟨block, passed⟩
    exact narrow_of_verify passed
  · intro narrow
    exact ⟨plain network.chainId 0, verify_plain narrow 0⟩

theorem not_ordinary_iff :
    ¬ block.Ordinary ↔ block.header.isAuxPow = true ∨ block.evidence ≠ none := by
  rw [← ordinary_iff, Bool.and_eq_true, Bool.not_eq_true', Option.isNone_iff_eq_none, not_and_or,
    Bool.not_eq_false]

/-- A network takes some merge-mined block exactly if its rules leave one possible at all. -/
theorem exists_accept_eq_ok_iff :
    (∃ block : AuxBlock, ¬ block.Ordinary ∧ block.accept network = .ok ()) ↔
      network.mergedMining = true ∧ network.startTime.toNat ≤ 4294967295 ∧
        network.chainId.toNat ≤ 65535 := by
  constructor
  · intro some
    rcases some with ⟨block, merged, passed⟩
    obtain ⟨taken, verified⟩ := (accept_eq_ok_iff.mp passed).resolve_left merged
    have time : block.header.time.toNat < 4294967296 := block.header.time.toNat_lt
    exact ⟨taken.enabled, Nat.le_trans taken.started (Nat.le_of_lt_succ time),
      narrow_of_verify verified⟩
  · intro conditions
    rcases conditions with ⟨enabled, early, narrow⟩
    exact ⟨plain network.chainId 0, not_ordinary_of_evidence rfl,
      accept_plain enabled early narrow 0⟩

/-- A network takes some merge-mined block exactly if merged mining is enabled, its start time has
at most 32 bits and its chain id at most 16.  The chain id alone decides whether some block passes
verification; then one does with any base version, with the marker demanded or not.  Otherwise every
valid block is one of another chain. -/
theorem networks_with_merged_blocks (network : Network) :
    ((∃ block : AuxBlock, (block.header.isAuxPow = true ∨ block.evidence ≠ none) ∧
        block.accept network = .ok ()) ↔
      network.mergedMining = true ∧ network.startTime.toNat ≤ 4294967295 ∧
        network.chainId.toNat ≤ 65535) ∧
    ((∃ block : AuxBlock, block.verify network = .ok ()) ↔ network.chainId.toNat ≤ 65535) ∧
    (network.chainId.toNat ≤ 65535 → ∀ base markerRequired, ∃ block : AuxBlock,
      block.header.version = .pack network.chainId base true ∧
        block.verify { network with markerRequired } = .ok ()) ∧
    (65535 < network.chainId.toNat → ∀ block : AuxBlock, block.isValid = true →
      block.verify network = .error (.wrongChainId block.chainId network.chainId)) := by
  refine ⟨?accepted, exists_verify_eq_ok_iff, ?anyBase, ?foreign⟩
  case accepted =>
    simp only [← not_ordinary_iff]
    exact exists_accept_eq_ok_iff
  case anyBase =>
    intro narrow base markerRequired
    have sameChain : ({ network with markerRequired } : Network).chainId.toNat ≤ 65535 := narrow
    exact ⟨plain network.chainId base, rfl, verify_plain sameChain base⟩
  case foreign =>
    intro wide block valid
    exact verify_of_wide_chain wide valid

/-- The widest chain id that a version has room for, and the next one. -/
theorem networks_with_merged_blocks_of_widest_chain :
    (Network.of 65535 .scrypt).chainId.toNat ≤ 65535 ∧
    (∃ block : AuxBlock, block.header.version = .pack 65535 7 true ∧
      block.verify { Network.of 65535 .scrypt with markerRequired := true } = .ok ()) ∧
    65535 < (Network.of 65536 .scrypt).chainId.toNat ∧
    (plain 0 7).isValid = true ∧
    (plain 0 7).verify (Network.of 65536 .scrypt) = .error (.wrongChainId 0 65536) := by
  have narrow : (Network.of 65535 .scrypt).chainId.toNat ≤ 65535 := by decide
  have wide : 65535 < (Network.of 65536 .scrypt).chainId.toNat := by decide
  have valid : (plain 0 7).isValid = true := by decide
  obtain ⟨-, -, anyBase, -⟩ := networks_with_merged_blocks (Network.of 65535 .scrypt)
  obtain ⟨-, -, -, foreign⟩ := networks_with_merged_blocks (Network.of 65536 .scrypt)
  exact ⟨narrow, anyBase narrow 7 true, wide, valid, foreign wide _ valid⟩

end MergedMining.AuxBlock
