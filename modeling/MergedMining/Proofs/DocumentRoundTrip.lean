/-
Module: MergedMining.Proofs.DocumentRoundTrip
Purpose: Blocks and their parts are read back, field by field, from the documents written of them.
Trusted boundary: none
Main exports: the LawfulForm instances of the domain types, Evidence.Addressable,
  Evidence.ofJson?_toJson_eq_iff, AuxBlock.ofJson?_toJson_eq_iff, AuxBlock.documents_round_trip
-/
import MergedMining.Document
import MergedMining.Proofs.LawfulForms

/-!
Documents hold all that a block consists of, also where no message has such a block: sizes beyond
the limits of reading, evidence without the flag and the flag without evidence, an offset and a
length that fit no message.  Only an offset or a length that no message of a 64-bit machine has is
written and not read.
-/

namespace MergedMining

open Json

instance : LawfulForm OutPoint where
  ofJson?_toJson outPoint := by
    apply bind_fields?_record OutPoint.fields [toJson outPoint.hash, toJson outPoint.index]
    · decide
    · rfl
    · simp

instance : LawfulForm TxInput where
  ofJson?_toJson input := by
    apply bind_fields?_record TxInput.fields
      [toJson input.outPoint, toJson input.script, toJson input.sequence]
    · decide
    · rfl
    · simp

instance : LawfulForm TxOutput where
  ofJson?_toJson output := by
    apply bind_fields?_record TxOutput.fields [toJson output.value, toJson output.script]
    · decide
    · rfl
    · simp

instance : LawfulForm Transaction where
  ofJson?_toJson tx := by
    apply bind_fields?_record Transaction.fields
      [toJson tx.version, toJson tx.inputs, toJson tx.outputs, toJson tx.lockTime]
    · decide
    · rfl
    · simp

instance : LawfulForm BlockHeader where
  ofJson?_toJson header := by
    apply bind_fields?_record BlockHeader.fields
      [toJson header.version.word, toJson header.previous, toJson header.merkleRoot,
       toJson header.time, toJson header.bits, toJson header.nonce]
    · decide
    · rfl
    · simp

instance : LawfulForm MerkleBranch where
  ofJson?_toJson branch := by
    apply bind_fields?_record MerkleBranch.fields
      [toJson branch.hashes, toJson branch.sideMask]
    · decide
    · rfl
    · simp

instance : LawfulForm PowAlgorithm where
  ofJson?_toJson algorithm := by
    cases algorithm with
    | scrypt => decide
    | sha256d => decide
    | unspecified => decide

namespace Evidence

/-- The offset and the length noted in the evidence are those of a message which 64 bits address. -/
structure Addressable (evidence : Evidence) : Prop where
  stop : evidence.stop < UInt64.size
  length : evidence.length < UInt64.size

/-- Evidence of a message that 64 bits address is read back with all its fields. -/
theorem ofJson?_toJson_of_addressable {evidence : Evidence}
    (addressable : evidence.Addressable) : ofJson? (toJson evidence) = some evidence := by
  apply bind_fields?_record Evidence.fields
    [toJson evidence.parent, toJson evidence.coinbase, toJson evidence.parentHash,
     toJson evidence.coinbaseBranch, toJson evidence.chainBranch, toJson evidence.stop,
     toJson evidence.length]
  · decide
  · rfl
  · simp [ofJson?_toJson_nat, addressable.stop, addressable.length]

/-- An offset or a length beyond 64 bits is not read. -/
theorem ofJson?_toJson_of_not_addressable {evidence : Evidence}
    (beyond : ¬ evidence.Addressable) : (ofJson? (toJson evidence) : Option Evidence) = none := by
  apply bind_fields?_record Evidence.fields
    [toJson evidence.parent, toJson evidence.coinbase, toJson evidence.parentHash,
     toJson evidence.coinbaseBranch, toJson evidence.chainBranch, toJson evidence.stop,
     toJson evidence.length]
  · decide
  · rfl
  · by_cases near : evidence.stop < UInt64.size
    · have far : ¬ evidence.length < UInt64.size := fun short => beyond ⟨near, short⟩
      simp [ofJson?_toJson_nat, near, far]
    · simp [ofJson?_toJson_nat, near]

/-- Evidence is read back exactly if its offset and length can be written in 64 bits. -/
theorem ofJson?_toJson_eq_iff {evidence : Evidence} :
    ofJson? (toJson evidence) = some evidence ↔ evidence.Addressable := by
  constructor
  · intro read
    by_contra beyond
    rw [ofJson?_toJson_of_not_addressable beyond] at read
    cases read
  · exact ofJson?_toJson_of_addressable

theorem toJson_ne_null (evidence : Evidence) : toJson evidence ≠ .null := by
  intro same
  cases same

end Evidence

namespace AuxBlock

/-- The evidence of the block, if it has any, is from a message which 64 bits address. -/
def Addressable (block : AuxBlock) : Prop :=
  ∀ evidence, block.evidence = some evidence → evidence.Addressable

/-- A block is read with its evidence or without, as it was written. -/
theorem ofJson?_toJson_eq_bind (block : AuxBlock) :
    (ofJson? (toJson block) : Option AuxBlock) =
      (ofJson? (toJson block.evidence)).map fun evidence => ⟨block.header, evidence⟩ := by
  apply bind_fields?_record AuxBlock.fields [toJson block.header, toJson block.evidence]
  · decide
  · rfl
  · simp only [LawfulForm.ofJson?_toJson, Option.bind_eq_bind, Option.bind_some,
      Option.map_eq_bind]
    rfl

/-- A block is read back exactly if its evidence is, or if it has none. -/
theorem ofJson?_toJson_eq_iff {block : AuxBlock} :
    ofJson? (toJson block) = some block ↔ block.Addressable := by
  rcases block with ⟨header, evidence⟩
  rw [ofJson?_toJson_eq_bind]
  cases evidence with
  | none => simp [Addressable, ofJson?, toJson]
  | some evidence =>
      simp [Addressable, ofJson?_toJson_some evidence.toJson_ne_null,
        ← Evidence.ofJson?_toJson_eq_iff]

/-- Whatever a block, a part of one or an algorithm is, its compact document is read as just that.
The offset and the length noted in evidence have to be those of a message, and only they. -/
theorem documents_round_trip :
    (∀ block : AuxBlock,
      JsonForm.ofText? (JsonForm.text block) = some block ↔ block.Addressable) ∧
    (∀ evidence : Evidence,
      JsonForm.ofText? (JsonForm.text evidence) = some evidence ↔ evidence.Addressable) ∧
    (∀ branch : MerkleBranch, JsonForm.ofText? (JsonForm.text branch) = some branch) ∧
    (∀ header : BlockHeader, JsonForm.ofText? (JsonForm.text header) = some header) ∧
    (∀ tx : Transaction, JsonForm.ofText? (JsonForm.text tx) = some tx) ∧
    (∀ input : TxInput, JsonForm.ofText? (JsonForm.text input) = some input) ∧
    (∀ output : TxOutput, JsonForm.ofText? (JsonForm.text output) = some output) ∧
    (∀ outPoint : OutPoint, JsonForm.ofText? (JsonForm.text outPoint) = some outPoint) ∧
    ∀ algorithm : PowAlgorithm,
      JsonForm.ofText? (JsonForm.text algorithm) = some algorithm := by
  refine ⟨?block, ?evidence, JsonForm.ofText?_text_of_lawful, JsonForm.ofText?_text_of_lawful,
    JsonForm.ofText?_text_of_lawful, JsonForm.ofText?_text_of_lawful,
    JsonForm.ofText?_text_of_lawful, JsonForm.ofText?_text_of_lawful,
    JsonForm.ofText?_text_of_lawful⟩
  case block =>
    intro block
    rw [JsonForm.ofText?_text, ofJson?_toJson_eq_iff]
  case evidence =>
    intro evidence
    rw [JsonForm.ofText?_text, Evidence.ofJson?_toJson_eq_iff]

end AuxBlock

end MergedMining
