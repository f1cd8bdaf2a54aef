/-
Module: MergedMining.Proofs.ClientVerdicts
Purpose: What a client that was set up from a description of its network makes of the blocks of a
  message.
Trusted boundary: none
Main exports: Consensus.ofDocument_eq_ok_iff, Consensus.acceptHeader_eq_ok_iff,
  Consensus.chain_of_taken, Consensus.verdicts_of_described
-/
import MergedMining.Consensus
import MergedMining.Proofs.DecodedBlocks
import MergedMining.Proofs.HashIdentities
import MergedMining.Proofs.NetworkDocuments

/-!
Between the text that describes a network and the verdict on a block of a message nothing else has a
say: neither how the description is written, nor what stands around the block.
-/

namespace MergedMining.Consensus

open Json

variable {complaint : String → String} {text other : String} {value : Json} {network : Network}
  {consensus : Consensus} {rejection : Rejection} {message : Bytes} {offset : Nat}
  {block : AuxBlock}

/-! ## Setting up -/

/-- A client is set up with the network that its description is read as. -/
theorem ofDocument_eq_ok_iff_network :
    ofDocument complaint text = .ok consensus ↔
      Network.ofDocument complaint text = .ok consensus.network := by
  unfold ofDocument
  cases Network.ofDocument complaint text with
  | error rejection => exact iff_of_false nofun nofun
  | ok network =>
      constructor
      · intro given
        cases given
        rfl
      · intro same
        cases same
        rfl

/-- A client is set up from the texts of the values that describe its network. -/
theorem ofDocument_eq_ok_iff :
    ofDocument complaint text = .ok consensus ↔
      ∃ value, Denotes text value ∧ Network.Describes value consensus.network := by
  rw [ofDocument_eq_ok_iff_network, Network.ofDocument_eq_ok_iff]

/-- It makes no difference to a client how the value of its description is written. -/
theorem ofDocument_of_same_value (one : Denotes text value) (same : Denotes other value)
    (given : ofDocument complaint text = .ok consensus) :
    ofDocument complaint other = .ok consensus := by
  obtain ⟨found, denotes, describes⟩ := ofDocument_eq_ok_iff.mp given
  rw [denotes.unique one] at describes
  exact ofDocument_eq_ok_iff.mpr ⟨value, same, describes⟩

/-- No client is set up from a text that describes no network, and the reader says why. -/
theorem ofDocument_eq_error_iff :
    ofDocument complaint text = .error rejection ↔
      (∀ consensus, ofDocument complaint text ≠ .ok consensus) ∧
        rejection = .config (complaint text) := by
  constructor
  · intro refused
    have unread (network : Network) : Network.ofDocument complaint text ≠ .ok network := by
      intro read
      have given : ofDocument complaint text = .ok ⟨network⟩ :=
        ofDocument_eq_ok_iff_network.mpr read
      rw [refused] at given
      cases given
    refine ⟨fun consensus given => unread _ (ofDocument_eq_ok_iff_network.mp given), ?_⟩
    rw [ofDocument, Network.ofDocument_refused unread] at refused
    cases refused
    rfl
  · intro reason
    rcases reason with ⟨unread, rfl⟩
    have refused : Network.ofDocument complaint text = .error (.config (complaint text)) :=
      Network.ofDocument_refused fun network read =>
        unread ⟨network⟩ (ofDocument_eq_ok_iff_network.mpr read)
    rw [ofDocument, refused]
    rfl

/-! ## Blocks of a message -/

/-- Of the blocks of a message a client takes those without flag, and those that its network is open
to and whose evidence it has nothing to object to. -/
theorem acceptHeader_eq_ok_iff (decoded : consensus.decodeHeader message offset = .ok block) :
    consensus.acceptHeader block = .ok () ↔
      block.header.isAuxPow = false ∨
        consensus.network.OpenAt block.header.time ∧
          consensus.checkProofOfWork block = .ok () := by
  have shape : AuxBlock.Shape message offset block := AuxBlock.decode_shape decoded
  rw [← shape.ordinary_iff]
  exact AuxBlock.accept_eq_ok_iff

/-- The evidence that a client finds in order is for its own chain, of work on another one. -/
theorem chain_of_proven (proven : consensus.checkProofOfWork block = .ok ()) :
    consensus.chainId block.header.version = consensus.network.chainId ∧
      ∃ evidence, block.evidence = some evidence ∧
        consensus.chainId evidence.parent.version ≠ consensus.network.chainId := by
  have clear := AuxBlock.verify_eq_ok_iff.mp proven
  constructor
  · by_contra foreign
    exact clear 2 _ (.foreign foreign)
  · cases present : block.evidence with
    | none => exact absurd (.noEvidence present) (clear 1 _)
    | some evidence => exact ⟨evidence, rfl, fun shared => clear 3 _ (.shared present shared)⟩

/-- A flagged block that a client takes from a message belongs to the client's chain, and the parent
that it was mined with belongs to another and has a hash. -/
theorem chain_of_taken (hashing : HashFunctions)
    (decoded : consensus.decodeHeader message offset = .ok block)
    (flagged : block.header.isAuxPow = true) (taken : consensus.acceptHeader block = .ok ()) :
    consensus.chainId block.header.version = consensus.network.chainId ∧
      ∃ evidence hash, block.evidence = some evidence ∧
        consensus.chainId evidence.parent.version ≠ consensus.network.chainId ∧
        consensus.parentBlockHash hashing block = .ok hash := by
  rcases (acceptHeader_eq_ok_iff decoded).mp taken with unflagged | ⟨-, proven⟩
  · rw [unflagged] at flagged
    cases flagged
  · obtain ⟨own, evidence, present, unshared⟩ := chain_of_proven proven
    obtain ⟨hash, hashed⟩ := consensus.network.algorithm.hash_eq_ok hashing evidence.parent
    have same : consensus.parentBlockHash hashing block = .ok hash := by
      rw [parentBlockHash, AuxBlock.parentHash, present]
      exact hashed
    exact ⟨own, evidence, hash, present, unshared, same⟩

/-- From any text that describes a network a client is set up that takes exactly those blocks of any
message that are without flag, or that the network is open to and has no objection to. -/
theorem verdicts_of_described (complaint : String → String) (denotes : Denotes text value)
    (describes : Network.Describes value network) :
    ∃ consensus, ofDocument complaint text = .ok consensus ∧
      ∀ message offset block, consensus.decodeHeader message offset = .ok block →
        (consensus.acceptHeader block = .ok () ↔
          block.header.isAuxPow = false ∨
            network.OpenAt block.header.time ∧
              ∀ stage rejection, ¬ AuxBlock.Objection network block stage rejection) := by
  refine ⟨⟨network⟩, ofDocument_eq_ok_iff.mpr ⟨value, denotes, describes⟩, ?_⟩
  intro message offset block decoded
  rw [acceptHeader_eq_ok_iff decoded, ← AuxBlock.verify_eq_ok_iff]
  exact Iff.rfl

end MergedMining.Consensus
