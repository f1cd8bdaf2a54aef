/-
Module: MergedMining.Proofs.DecodedBlocks
Purpose: Decoding and verification agree on which blocks are well formed.
Trusted boundary: none
Main exports: AuxBlock.Shape, AuxBlock.decode_shape, AuxBlock.Coherent, AuxBlock.decode_coherent
-/
import MergedMining.Proofs.Activation
import MergedMining.Proofs.MessageGrammar

/-!
The limits are enforced where a message is read, and two of them again where evidence is verified.
For a block that was read the second look can find one fault only, which reading lets through: a
coinbase without inputs.
-/

namespace MergedMining.AuxBlock

/-- The two forms of a block that was read from an offset of a message. -/
inductive Shape (message : Bytes) (offset : Nat) : AuxBlock → Prop where
  | bare {header : BlockHeader} (unflagged : header.isAuxPow = false) :
      Shape message offset ⟨header, none⟩
  | merged {header : BlockHeader} {evidence : Evidence} (flagged : header.isAuxPow = true)
      (limits : evidence.WithinLimits)
      (stop : evidence.stop = offset + 80 + evidence.length)
      (inside : evidence.stop ≤ message.length)
      (least : 132 ≤ evidence.length) :
      Shape message offset ⟨header, some evidence⟩

variable {message : Bytes} {offset : Nat} {block : AuxBlock} {evidence : Evidence}
  {network : Network}

/-- A block that was read has evidence if it is flagged, within all limits and placed where it was
read from. -/
theorem decode_shape (decoded : decode message offset = .ok block) :
    Shape message offset block := by
  rcases block with ⟨header, evidence⟩
  cases evidence with
  | none => exact .bare (decode_bare_eq_ok_iff.mp decoded).1
  | some evidence =>
      obtain ⟨flagged, recorded, within, spelled⟩ := decode_merged_eq_ok_iff.mp decoded
      have width : (header.encode ++ evidence.encode).length = 80 + evidence.length := by
        rw [List.length_append, header.length_encode, BlockHeader.size, recorded.length]
      have stop : evidence.stop = offset + 80 + evidence.length := by
        rw [recorded.stop, width, Nat.add_assoc]
      have inside : evidence.stop ≤ message.length := by
        have short := spelled.length_le
        rw [List.length_drop, width] at short
        omega
      have least : 132 ≤ evidence.length := by
        rw [recorded.length]
        exact evidence.le_length_encode
      exact .merged flagged recorded.limits stop inside least

/-- Evidence that could be read is well formed if there is something to search. -/
theorem isWellFormed_of_limits (limits : evidence.WithinLimits) :
    evidence.isWellFormed = true ↔ evidence.coinbase.inputs ≠ [] := by
  rw [isWellFormed_iff]
  constructor
  · intro wellFormed
    exact wellFormed.1
  · intro searchable
    exact ⟨searchable, limits.coinbaseBranch, limits.chainBranch⟩

theorem isValid_eq_of_present (present : block.evidence = some evidence) :
    block.isValid = evidence.isWellFormed := by
  rw [isValid, present, Option.any_some]

/-- There is evidence, but its coinbase has no input to search. -/
def Unsearchable (block : AuxBlock) : Prop :=
  ∃ evidence, block.evidence = some evidence ∧ evidence.coinbase.inputs = []

namespace Shape

/-- Flag and evidence come together in what was read. -/
theorem isSome_evidence (shape : Shape message offset block) :
    block.evidence.isSome = block.header.isAuxPow := by
  cases shape with
  | bare unflagged => exact unflagged.symm
  | merged flagged => exact flagged.symm

theorem withinLimits (shape : Shape message offset block)
    (present : block.evidence = some evidence) : evidence.WithinLimits := by
  cases shape with
  | bare => cases present
  | merged _ limits =>
      cases present
      exact limits

/-- Of blocks that were read, those without flag have nothing to do with merged mining. -/
theorem ordinary_iff (shape : Shape message offset block) :
    block.Ordinary ↔ block.header.isAuxPow = false := by
  constructor
  · intro ordinary
    exact ordinary.unflagged
  · intro unflagged
    refine ⟨unflagged, ?_⟩
    rw [← Option.not_isSome_iff_eq_none, shape.isSome_evidence, unflagged]
    exact Bool.false_ne_true

/-- Where a coinbase lacks inputs there is a coinbase, and so a flag. -/
theorem isAuxPow_of_unsearchable (shape : Shape message offset block)
    (unsearchable : block.Unsearchable) : block.header.isAuxPow = true := by
  rcases unsearchable with ⟨evidence, present, _⟩
  rw [← shape.isSome_evidence, present, Option.isSome_some]

/-- A flagged block that was read is valid, but for a coinbase without inputs. -/
theorem isValid_eq_false_iff (shape : Shape message offset block) :
    block.isValid = false ↔ block.header.isAuxPow = false ∨ block.Unsearchable := by
  cases shape with
  | bare unflagged => simp [isValid, unflagged]
  | merged flagged limits =>
      simp [isValid, Unsearchable, flagged, ← Bool.not_eq_true, isWellFormed_of_limits limits]

/-- Only blocks that were not read from a message can be at fault for want of evidence. -/
theorem accept_ne_noEvidence (shape : Shape message offset block) :
    block.accept network ≠ .error .noEvidence := by
  intro refused
  obtain ⟨flagged, bare, _⟩ := accept_noEvidence_iff.mp refused
  rw [← shape.isSome_evidence, bare] at flagged
  cases flagged

/-- A block that was read is refused as malformed if the network is open to it and there are no
inputs to search. -/
theorem accept_malformed_iff (shape : Shape message offset block) :
    (∃ reason, block.accept network = .error (.malformed reason)) ↔
      network.OpenAt block.header.time ∧ block.Unsearchable := by
  rw [AuxBlock.accept_malformed_iff, shape.ordinary_iff, shape.isValid_eq_false_iff]
  constructor
  · intro refused
    rcases refused with ⟨flagged, taken, fault⟩
    exact ⟨taken, fault.resolve_left flagged⟩
  · intro reason
    rcases reason with ⟨taken, unsearchable⟩
    have flagged := shape.isAuxPow_of_unsearchable unsearchable
    exact ⟨Bool.not_eq_false _ ▸ flagged, taken, .inr unsearchable⟩

end Shape

/-- What can be relied on of a block that was read from an offset of a message. -/
structure Coherent (message : Bytes) (offset : Nat) (block : AuxBlock) : Prop where
  presence : block.evidence.isSome = block.header.isAuxPow
  limits : ∀ evidence, block.evidence = some evidence →
    evidence.coinbase.inputs.length ≤ 1000 ∧ evidence.coinbase.outputs.length ≤ 1000 ∧
      (∀ input ∈ evidence.coinbase.inputs, input.script.length ≤ 10000) ∧
      (∀ output ∈ evidence.coinbase.outputs, output.script.length ≤ 10000) ∧
      evidence.coinbaseBranch.hashes.length ≤ 30 ∧ evidence.chainBranch.hashes.length ≤ 30
  validity : ∀ evidence, block.evidence = some evidence →
    (block.isValid = true ↔ evidence.coinbase.inputs ≠ [])
  place : block.evidence.isSome = true →
    block.stop = offset + 80 + block.evidenceLength ∧ block.stop ≤ message.length ∧
      132 ≤ block.evidenceLength
  noPlace : block.evidence = none → block.stop = 0 ∧ block.evidenceLength = 0
  verdict : ∀ network : Network,
    (∃ reason, block.verify network = .error (.malformed reason)) ↔
      block.header.isAuxPow = false ∨ block.Unsearchable
  admission : ∀ network : Network, block.accept network ≠ .error .noEvidence
  refusal : ∀ network : Network,
    (∃ reason, block.accept network = .error (.malformed reason)) ↔
      network.OpenAt block.header.time ∧ block.Unsearchable

/-- Reading and verification draw the same line, but for coinbases without inputs. -/
theorem decode_coherent (message : Bytes) (offset : Nat) (block : AuxBlock)
    (decoded : decode message offset = .ok block) : Coherent message offset block := by
  have shape := decode_shape decoded
  refine
    { presence := shape.isSome_evidence
      limits := ?limits
      validity := ?validity
      place := ?place
      noPlace := ?noPlace
      verdict := ?verdict
      admission := fun _ => shape.accept_ne_noEvidence
      refusal := fun _ => shape.accept_malformed_iff }
  case limits =>
    intro evidence present
    have limits := shape.withinLimits present
    exact ⟨limits.coinbase.inputs, limits.coinbase.outputs, limits.coinbase.inputScripts,
      limits.coinbase.outputScripts, limits.coinbaseBranch, limits.chainBranch⟩
  case validity =>
    intro evidence present
    rw [isValid_eq_of_present present]
    exact isWellFormed_of_limits (shape.withinLimits present)
  case place =>
    intro merged
    cases shape with
    | bare => cases merged
    | merged _ _ stop inside least => exact ⟨stop, inside, least⟩
  case noPlace =>
    intro bare
    simp [stop, evidenceLength, bare]
  case verdict =>
    intro network
    rw [verify_malformed_iff, shape.isValid_eq_false_iff]

/-- A coinbase without inputs is read: all is zero but the flag and the byte before the message. -/
theorem decode_coherent_of_zeros :
    ∃ block, decode (0xee :: 0 :: 1 :: List.replicate 211 0) 1 = .ok block ∧
      block.Unsearchable ∧ Coherent (0xee :: 0 :: 1 :: List.replicate 211 0) 1 block := by
  have decoded : decode (0xee :: 0 :: 1 :: List.replicate 211 0) 1 =
      .ok ⟨⟨⟨0x100⟩, .zero, .zero, 0, 0, 0⟩,
        some ⟨⟨⟨0⟩, .zero, .zero, 0, 0, 0⟩, ⟨0, [], [], 0⟩, .zero, .empty, .empty, 213, 132⟩⟩ := by
    decide +kernel
  exact ⟨_, decoded, ⟨_, rfl, rfl⟩, decode_coherent _ _ _ decoded⟩

end MergedMining.AuxBlock
