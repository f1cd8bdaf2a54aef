/-
Module: MergedMining.Proofs.TransactionCodec
Purpose: Reading inverts writing for transactions within the limits, and accepts nothing else.
Trusted boundary: none
Main exports: TxInput.read_eq_ok_iff, TxOutput.read_eq_ok_iff, Transaction.read_eq_ok_iff,
  Transaction.ten_le_length_encode, Transaction.read_from_message_iff, Transaction.CountsFit
-/
import MergedMining.Proofs.CompactSizeCodec
import MergedMining.Transaction

namespace MergedMining

open Wire

theorem maxInputs_lt_size : maxInputs < UInt64.size := by decide

theorem maxOutputs_lt_size : maxOutputs < UInt64.size := by decide

theorem maxScriptSize_lt_size : maxScriptSize < UInt64.size := by decide

variable {start stop : Cursor}

/-- An outpoint is read from its wire form, whichever transaction it names. -/
theorem OutPoint.read_eq_ok_iff {outPoint : OutPoint} :
    OutPoint.read start = .ok outPoint stop ↔ start.Passes outPoint.encode stop := by
  simp only [OutPoint.read, OutPoint.encode, Read.bind_eq_ok_iff, Read.pure_eq_ok_iff,
    readHash_eq_ok_iff, readUInt32_eq_ok_iff, Cursor.passes_append_iff]
  constructor
  · intro accepted
    rcases accepted with ⟨hash, middle, front, index, _, back, rfl, rfl⟩
    exact ⟨middle, front, back⟩
  · intro passes
    rcases passes with ⟨middle, front, back⟩
    exact ⟨outPoint.hash, middle, front, outPoint.index, stop, back, rfl, rfl⟩

/-- An input is read from its wire form if its script is not too long. -/
theorem TxInput.read_eq_ok_iff {input : TxInput} :
    TxInput.read start = .ok input stop ↔
      input.script.length ≤ maxScriptSize ∧ start.Passes input.encode stop := by
  simp only [TxInput.read, TxInput.encode, Read.bind_eq_ok_iff, Read.pure_eq_ok_iff,
    OutPoint.read_eq_ok_iff, readVarBytes_eq_ok_iff maxScriptSize_lt_size, readUInt32_eq_ok_iff,
    List.append_assoc, Cursor.passes_append_iff]
  constructor
  · intro accepted
    rcases accepted with ⟨outPoint, afterOutPoint, spent, script, afterScript, ⟨bounded, body⟩,
      sequence, _, last, rfl, rfl⟩
    exact ⟨bounded, afterOutPoint, spent, afterScript, body, last⟩
  · intro accepted
    rcases accepted with ⟨bounded, afterOutPoint, spent, afterScript, body, last⟩
    exact ⟨input.outPoint, afterOutPoint, spent, input.script, afterScript, ⟨bounded, body⟩,
      input.sequence, stop, last, rfl, rfl⟩

/-- An output is read from its wire form if its script is not too long. -/
theorem TxOutput.read_eq_ok_iff {output : TxOutput} :
    TxOutput.read start = .ok output stop ↔
      output.script.length ≤ maxScriptSize ∧ start.Passes output.encode stop := by
  simp only [TxOutput.read, TxOutput.encode, Read.bind_eq_ok_iff, Read.pure_eq_ok_iff,
    readInt64_eq_ok_iff, readVarBytes_eq_ok_iff maxScriptSize_lt_size, Cursor.passes_append_iff]
  constructor
  · intro accepted
    rcases accepted with ⟨value, afterValue, amount, script, _, ⟨bounded, body⟩, rfl, rfl⟩
    exact ⟨bounded, afterValue, amount, body⟩
  · intro accepted
    rcases accepted with ⟨bounded, afterValue, amount, body⟩
    exact ⟨output.value, afterValue, amount, output.script, stop, ⟨bounded, body⟩, rfl, rfl⟩

namespace Transaction

/-- A transaction is accepted in its wire form and in no other, if it is within the limits. -/
theorem read_eq_ok_iff {tx : Transaction} :
    read start = .ok tx stop ↔ tx.WithinLimits ∧ start.Passes tx.encode stop := by
  simp only [read, encode, encodeLength, Read.bind_eq_ok_iff, Read.pure_eq_ok_iff,
    readInt32_eq_ok_iff, readLength_eq_ok_iff maxInputs_lt_size,
    readLength_eq_ok_iff maxOutputs_lt_size, readMany_eq_ok_iff TxInput.read_eq_ok_iff,
    readMany_eq_ok_iff TxOutput.read_eq_ok_iff, readUInt32_eq_ok_iff, List.append_assoc,
    Cursor.passes_append_iff]
  constructor
  · intro accepted
    rcases accepted with ⟨version, afterVersion, first, _, counted, ⟨fewInputs, inputCount⟩,
      inputs, afterInputs, ⟨rfl, inputScripts, inputRow⟩, _, counted', ⟨fewOutputs, outputCount⟩,
      outputs, afterOutputs, ⟨rfl, outputScripts, outputRow⟩, lockTime, _, last, rfl, rfl⟩
    exact ⟨⟨fewInputs, fewOutputs, inputScripts, outputScripts⟩, afterVersion, first,
      counted, inputCount, afterInputs, inputRow, counted', outputCount, afterOutputs, outputRow,
      last⟩
  · intro accepted
    rcases accepted with ⟨limits, afterVersion, first, counted, inputCount, afterInputs, inputRow,
      counted', outputCount, afterOutputs, outputRow, last⟩
    exact ⟨tx.version, afterVersion, first, tx.inputs.length, counted, ⟨limits.inputs, inputCount⟩,
      tx.inputs, afterInputs, ⟨rfl, limits.inputScripts, inputRow⟩,
      tx.outputs.length, counted', ⟨limits.outputs, outputCount⟩,
      tx.outputs, afterOutputs, ⟨rfl, limits.outputScripts, outputRow⟩,
      tx.lockTime, stop, last, rfl, rfl⟩

/-- The limits on transactions that are read, in numbers. -/
theorem withinLimits_iff {tx : Transaction} :
    tx.WithinLimits ↔
      tx.inputs.length ≤ 1000 ∧ tx.outputs.length ≤ 1000 ∧
        (∀ input ∈ tx.inputs, input.script.length ≤ 10000) ∧
        ∀ output ∈ tx.outputs, output.script.length ≤ 10000 := by
  constructor
  · intro limits
    exact ⟨limits.inputs, limits.outputs, limits.inputScripts, limits.outputScripts⟩
  · intro limits
    rcases limits with ⟨inputs, outputs, inputScripts, outputScripts⟩
    exact ⟨inputs, outputs, inputScripts, outputScripts⟩

/-- Version, two counts and lock time are always there. -/
theorem ten_le_length_encode (tx : Transaction) : 10 ≤ tx.encode.length := by
  have inputCount : 0 < (encodeLength tx.inputs).length := CompactSize.length_encode_pos _
  have outputCount : 0 < (encodeLength tx.outputs).length := CompactSize.length_encode_pos _
  simp only [encode, List.length_append, Bytes.length_ofNatLE]
  omega

/-- Reading from an offset of a message returns a transaction and stops at another offset exactly
when the transaction is within the limits and its wire form stands between the two, whatever
stands around it. -/
theorem read_from_message_iff (message : Bytes) (place : Nat) (tx : Transaction) (stop : Cursor) :
    (∃ start, Cursor.start message place = .ok start ∧ read start = .ok tx stop) ↔
      (tx.inputs.length ≤ 1000 ∧ tx.outputs.length ≤ 1000 ∧
        (∀ input ∈ tx.inputs, input.script.length ≤ 10000) ∧
        ∀ output ∈ tx.outputs, output.script.length ≤ 10000) ∧
      stop.position = place + tx.encode.length ∧ stop.position ≤ message.length ∧
        message.extract place stop.position = tx.encode ∧
        stop.rest = message.drop stop.position := by
  rw [← Cursor.exists_start_passes_iff, ← withinLimits_iff]
  constructor
  · intro accepted
    rcases accepted with ⟨start, begun, accepted⟩
    obtain ⟨limits, passes⟩ := read_eq_ok_iff.mp accepted
    exact ⟨limits, start, begun, passes⟩
  · intro stands
    rcases stands with ⟨limits, start, begun, passes⟩
    exact ⟨start, begun, read_eq_ok_iff.mpr ⟨limits, passes⟩⟩

/-- The transactions whose wire form tells their lengths: each is written in eight bytes at most. -/
structure CountsFit (tx : Transaction) : Prop where
  inputs : tx.inputs.length < UInt64.size
  outputs : tx.outputs.length < UInt64.size
  inputScripts : ∀ input ∈ tx.inputs, input.script.length < UInt64.size
  outputScripts : ∀ output ∈ tx.outputs, output.script.length < UInt64.size

/-- A transaction that pays to a script of `count` bytes. -/
def paying (count : Nat) : Transaction where
  version := 1
  inputs := [⟨.null, [1, 2, 3], 0⟩]
  outputs := [⟨5, List.replicate count 0x51⟩]
  lockTime := 0

theorem countsFit_paying {count : Nat} (fits : count < UInt64.size) : (paying count).CountsFit := by
  have single : 1 < UInt64.size := by decide
  refine ⟨single, single, ?_, ?_⟩
  · intro input spent
    cases List.mem_singleton.mp spent
    decide
  · intro output paid
    cases List.mem_singleton.mp paid
    rwa [List.length_replicate]

theorem paying_inj {count other : Nat} : paying count = paying other ↔ count = other := by
  simp [paying]

end Transaction

end MergedMining
