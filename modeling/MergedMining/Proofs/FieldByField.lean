/-
Module: MergedMining.Proofs.FieldByField
Purpose: What holds of the reads of single fields holds of the read of a whole block.
Trusted boundary: none
Main exports: limits, FieldByField, FieldByField.readMany, FieldByField.transaction,
  FieldByField.evidence, FieldByField.auxBlock
-/
import MergedMining.Proofs.MessageGrammar

/-!
A block is read field by field: integers and hashes of a fixed width, and scripts and rows behind
their counts.  A property of reads that these have, and that passes through `bind`, is therefore one
of the reads of transactions, branches, headers, evidence and blocks.  The layout of the parts is
gone through here once, for whatever property is in question.
-/

namespace MergedMining

open Wire

/-- What is counted in a block, with the most of it that is read. -/
def limits : List (String × Nat) :=
  [("input", 1000), ("script_sig byte", 10000), ("output", 1000), ("script_pubkey byte", 10000),
    ("merkle branch hash", 30)]

/-- The property holds of the fields of a block, and of what is put together from reads that have
it. -/
structure FieldByField (property : {α : Type} → Read α → Prop) : Prop where
  pure {α : Type} (value : α) : property (Pure.pure value)
  bind {α β : Type} {read : Read α} {next : α → Read β} :
    property read → (∀ value, property (next value)) → property (read >>= next)
  /-- The widest field is a hash. -/
  readExactly {count : Nat} : count ≤ 32 → property (Wire.readExactly count)
  readLength {what : String} {max : Nat} :
    (what, max) ∈ limits → property (Wire.readLength what max)
  readVarBytes {what : String} {max : Nat} :
    (what, max) ∈ limits → property (Wire.readVarBytes what max)

namespace FieldByField

variable {property : {α : Type} → Read α → Prop} (law : FieldByField property)
include law

/-- Reading a value and making another of it. -/
theorem map {α β : Type} {read : Read α} (first : property read) (f : α → β) :
    property (read >>= fun value => Pure.pure (f value)) :=
  law.bind first fun value => law.pure (f value)

/-- A row has the property if its elements have it, by induction on the count. -/
theorem readMany {α : Type} {read : Read α} (element : property read) (count : Nat) :
    property (Wire.readMany read count) := by
  induction count with
  | zero => exact law.pure []
  | succ count ih =>
      apply law.bind element
      intro first
      exact law.map ih (first :: ·)

/-! ## Fields of a fixed width -/

/-- Integers are read as rows of bytes, so those that are no wider than a hash have it. -/
theorem readNat {width : Nat} (narrow : width ≤ 32) : property (Wire.readNat width) :=
  law.map (law.map (law.readExactly narrow) _) _

theorem readUInt32 : property Wire.readUInt32 := law.map (law.readNat (by decide)) _

theorem readInt32 : property Wire.readInt32 := law.map law.readUInt32 _

theorem readInt64 : property Wire.readInt64 :=
  law.map (law.map (law.readNat (by decide)) UInt64.ofNat) _

theorem readHash : property Wire.readHash := law.map (law.readExactly (Nat.le_refl 32)) _

/-! ## Transactions -/

/-- An earlier output is named by a hash and a number. -/
theorem outPoint : property OutPoint.read := by
  apply law.bind law.readHash
  intro hash
  exact law.map law.readUInt32 _

/-- The script of an input stands behind its length, and within the limit for scripts. -/
theorem txInput : property TxInput.read := by
  apply law.bind law.outPoint
  intro outPoint
  apply law.bind (law.readVarBytes (by decide))
  intro script
  exact law.map law.readUInt32 _

theorem txOutput : property TxOutput.read := by
  apply law.bind law.readInt64
  intro value
  exact law.map (law.readVarBytes (by decide)) _

/-- In a transaction each row stands behind its own count. -/
theorem transaction : property Transaction.read := by
  apply law.bind law.readInt32
  intro version
  apply law.bind (law.readLength (by decide))
  intro inputCount
  apply law.bind (law.readMany law.txInput inputCount)
  intro inputs
  apply law.bind (law.readLength (by decide))
  intro outputCount
  apply law.bind (law.readMany law.txOutput outputCount)
  intro outputs
  exact law.map law.readUInt32 _

/-! ## Branches and headers -/

/-- A branch is a row of hashes behind its count, and a word. -/
theorem merkleBranch : property MerkleBranch.read := by
  apply law.bind (law.readLength (by decide))
  intro count
  apply law.bind (law.readMany law.readHash count)
  intro hashes
  exact law.map law.readUInt32 _

/-- A header has fields of fixed widths only, so no count is needed for it. -/
theorem blockHeader : property BlockHeader.read := by
  apply law.bind law.readUInt32
  intro version
  apply law.bind law.readHash
  intro previous
  apply law.bind law.readHash
  intro merkleRoot
  apply law.bind law.readUInt32
  intro time
  apply law.bind law.readUInt32
  intro bits
  exact law.map law.readUInt32 _

/-! ## Blocks

Evidence notes the offsets of its ends, and a block has evidence. -/

section Placed

variable (place : property Wire.position)
include place

/-- Evidence has the property if the position of the cursor has it, as its ends are noted. -/
theorem evidence : property Evidence.read := by
  apply law.bind place
  intro start
  apply law.bind law.transaction
  intro coinbase
  apply law.bind law.readHash
  intro parentHash
  apply law.bind law.merkleBranch
  intro coinbaseBranch
  apply law.bind law.merkleBranch
  intro chainBranch
  apply law.bind law.blockHeader
  intro parent
  exact law.map place _

/-- The flag of the header decides what is read behind it, and the property holds either way. -/
theorem auxBlock : property AuxBlock.read := by
  apply law.bind law.blockHeader
  intro header
  cases header.isAuxPow with
  | true =>
      apply law.bind (law.evidence place)
      intro evidence
      exact law.pure _
  | false => exact law.pure _

end Placed

end FieldByField

end MergedMining
