/-
Module: MergedMining.Transaction
Purpose: Transactions, their wire form without witnesses, and the limits on what is read.
Trusted boundary: none
Main exports: OutPoint, TxInput, TxOutput, Transaction, Transaction.encode, Transaction.read,
  Transaction.WithinLimits, Transaction.id
-/
import MergedMining.Hashing.Functions
import MergedMining.Wire.CompactSize

/-!
A transaction of any size can be written.  Reading admits no more inputs, outputs and script bytes
than the limits allow; the count is refused before anything that it counts is read.
-/

namespace MergedMining

open Wire

/-- A reference to an output of an earlier transaction. -/
structure OutPoint where
  /-- The identity hash of the earlier transaction. -/
  hash : Hash256
  /-- Which of its outputs. -/
  index : UInt32
deriving Repr, DecidableEq, Inhabited

/-- An input spends an earlier output. -/
structure TxInput where
  outPoint : OutPoint
  script : Bytes
  sequence : UInt32
deriving Repr, DecidableEq, Inhabited

/-- An output pays an amount to whoever satisfies its script. -/
structure TxOutput where
  value : Int64
  script : Bytes
deriving Repr, DecidableEq

structure Transaction where
  version : Int32
  inputs : List TxInput
  outputs : List TxOutput
  lockTime : UInt32
deriving Repr, DecidableEq

/-- The most inputs that a transaction is read with. -/
def maxInputs : Nat := 1000

/-- The most outputs that a transaction is read with. -/
def maxOutputs : Nat := 1000

/-- The most bytes that a script is read with. -/
def maxScriptSize : Nat := 10000

namespace OutPoint

/-- The output index of the null outpoint. -/
def nullIndex : UInt32 := 0xffffffff

/-- What a coinbase input spends, since its coins are new. -/
def null : OutPoint := ⟨.zero, nullIndex⟩

def encode (outPoint : OutPoint) : Bytes :=
  outPoint.hash.bytes ++ Bytes.ofNatLE 4 outPoint.index.toNat

def read : Read OutPoint := do
  let hash ← readHash
  let index ← readUInt32
  return { hash, index }

end OutPoint

namespace TxInput

/-- The sequence number of an input that is not to be replaced. -/
def finalSequence : UInt32 := 0xffffffff

/-- A coinbase input creates coins: it spends no earlier output. -/
def isCoinbase (input : TxInput) : Bool := input.outPoint == .null

def encode (input : TxInput) : Bytes :=
  input.outPoint.encode ++ encodeVarBytes input.script ++ Bytes.ofNatLE 4 input.sequence.toNat

def read : Read TxInput := do
  let outPoint ← OutPoint.read
  let script ← readVarBytes "script_sig byte" maxScriptSize
  let sequence ← readUInt32
  return { outPoint, script, sequence }

end TxInput

namespace TxOutput

def encode (output : TxOutput) : Bytes :=
  Bytes.ofNatLE 8 output.value.toUInt64.toNat ++ encodeVarBytes output.script

def read : Read TxOutput := do
  let value ← readInt64
  let script ← readVarBytes "script_pubkey byte" maxScriptSize
  return { value, script }

end TxOutput

namespace Transaction

/-- The wire form without witness data. -/
def encode (tx : Transaction) : Bytes :=
  Bytes.ofNatLE 4 tx.version.toUInt32.toNat
    ++ (encodeLength tx.inputs ++ tx.inputs.flatMap TxInput.encode)
    ++ (encodeLength tx.outputs ++ tx.outputs.flatMap TxOutput.encode)
    ++ Bytes.ofNatLE 4 tx.lockTime.toNat

/-- The transaction at the cursor. -/
def read : Read Transaction := do
  let version ← readInt32
  let inputs ← readMany TxInput.read (← readLength "input" maxInputs)
  let outputs ← readMany TxOutput.read (← readLength "output" maxOutputs)
  let lockTime ← readUInt32
  return { version, inputs, outputs, lockTime }

/-- The transactions that can be read. -/
structure WithinLimits (tx : Transaction) : Prop where
  inputs : tx.inputs.length ≤ maxInputs
  outputs : tx.outputs.length ≤ maxOutputs
  inputScripts : ∀ input ∈ tx.inputs, input.script.length ≤ maxScriptSize
  outputScripts : ∀ output ∈ tx.outputs, output.script.length ≤ maxScriptSize

/-- A transaction is identified by the double SHA-256 of its wire form. -/
def id (hashing : HashFunctions) (tx : Transaction) : Hash256 := hashing.sha256Twice tx.encode

theorem id_eq (hashing : HashFunctions) (tx : Transaction) :
    tx.id hashing = hashing.doubleSha256 tx.encode := hashing.sha256Twice_eq _

/-- A coinbase transaction has a single input, and that creates coins. -/
def isCoinbase (tx : Transaction) : Bool :=
  match tx.inputs with
  | [input] => input.isCoinbase
  | _ => false

end Transaction

end MergedMining
