/-
Module: MergedMining.Document
Purpose: The JSON documents of blocks, their parts and networks.
Trusted boundary: that of `Json.Form`, for the records named here
Main exports: Network.document, Network.ofDocument, the JsonForm instances of the domain types
-/
import MergedMining.AuxBlock
import MergedMining.Json.Form

/-!
Every record names its fields once, and both directions go through that list.  The fields of a
record are those of the structure, in their order.
-/

namespace MergedMining

open Json

namespace OutPoint

def fields : List RecordField := [{ name := "hash" }, { name := "index" }]

instance : JsonForm OutPoint where
  toJson outPoint := record fields [toJson outPoint.hash, toJson outPoint.index]
  ofJson? value := do
    let [hash, index] ← fields? fields value | none
    return { hash := ← ofJson? hash, index := ← ofJson? index }

end OutPoint

namespace TxInput

def fields : List RecordField :=
  [{ name := "prevout" }, { name := "script_sig" }, { name := "sequence" }]

instance : JsonForm TxInput where
  toJson input :=
    record fields [toJson input.outPoint, toJson input.script, toJson input.sequence]
  ofJson? value := do
    let [outPoint, script, sequence] ← fields? fields value | none
    return {
      outPoint := ← ofJson? outPoint
      script := ← ofJson? script
      sequence := ← ofJson? sequence }

end TxInput

namespace TxOutput

def fields : List RecordField := [{ name := "value" }, { name := "script_pubkey" }]

instance : JsonForm TxOutput where
  toJson output := record fields [toJson output.value, toJson output.script]
  ofJson? value := do
    let [amount, script] ← fields? fields value | none
    return { value := ← ofJson? amount, script := ← ofJson? script }

end TxOutput

namespace Transaction

def fields : List RecordField :=
  [{ name := "version" }, { name := "inputs" }, { name := "outputs" }, { name := "lock_time" }]

instance : JsonForm Transaction where
  toJson tx :=
    record fields [toJson tx.version, toJson tx.inputs, toJson tx.outputs, toJson tx.lockTime]
  ofJson? value := do
    let [version, inputs, outputs, lockTime] ← fields? fields value | none
    return {
      version := ← ofJson? version
      inputs := ← ofJson? inputs
      outputs := ← ofJson? outputs
      lockTime := ← ofJson? lockTime }

end Transaction

namespace BlockHeader

def fields : List RecordField :=
  [{ name := "version" }, { name := "prev_block_hash" }, { name := "merkle_root" },
   { name := "timestamp" }, { name := "bits" }, { name := "nonce" }]

instance : JsonForm BlockHeader where
  toJson header :=
    record fields
      [toJson header.version.word, toJson header.previous, toJson header.merkleRoot,
       toJson header.time, toJson header.bits, toJson header.nonce]
  ofJson? value := do
    let [version, previous, merkleRoot, time, bits, nonce] ← fields? fields value | none
    return {
      version := ⟨← ofJson? version⟩
      previous := ← ofJson? previous
      merkleRoot := ← ofJson? merkleRoot
      time := ← ofJson? time
      bits := ← ofJson? bits
      nonce := ← ofJson? nonce }

end BlockHeader

namespace MerkleBranch

def fields : List RecordField := [{ name := "hashes" }, { name := "side_mask" }]

instance : JsonForm MerkleBranch where
  toJson branch := record fields [toJson branch.hashes, toJson branch.sideMask]
  ofJson? value := do
    let [hashes, sideMask] ← fields? fields value | none
    return { hashes := ← ofJson? hashes, sideMask := ← ofJson? sideMask }

end MerkleBranch

namespace Evidence

def fields : List RecordField :=
  [{ name := "parent_block_header" }, { name := "parent_coinbase_tx" },
   { name := "parent_hash_field" }, { name := "coinbase_branch" }, { name := "chain_branch" },
   { name := "cursor" }, { name := "length" }]

instance : JsonForm Evidence where
  toJson evidence :=
    record fields
      [toJson evidence.parent, toJson evidence.coinbase, toJson evidence.parentHash,
       toJson evidence.coinbaseBranch, toJson evidence.chainBranch, toJson evidence.stop,
       toJson evidence.length]
  ofJson? value := do
    let [parent, coinbase, parentHash, coinbaseBranch, chainBranch, stop, length] ←
      fields? fields value | none
    return {
      parent := ← ofJson? parent
      coinbase := ← ofJson? coinbase
      parentHash := ← ofJson? parentHash
      coinbaseBranch := ← ofJson? coinbaseBranch
      chainBranch := ← ofJson? chainBranch
      stop := ← ofJson? stop
      length := ← ofJson? length }

end Evidence

namespace AuxBlock

/-- An object without evidence is that of a block without evidence. -/
def fields : List RecordField :=
  [{ name := "header" }, { name := "payload", ifMissing := some .null }]

instance : JsonForm AuxBlock where
  toJson block := record fields [toJson block.header, toJson block.evidence]
  ofJson? value := do
    let [header, evidence] ← fields? fields value | none
    return { header := ← ofJson? header, evidence := ← ofJson? evidence }

end AuxBlock

namespace PowAlgorithm

/-- The name by which documents call an algorithm. -/
def name : PowAlgorithm → String
  | .scrypt => "scrypt"
  | .sha256d => "sha256d"
  | .unspecified => "default"

/-- The algorithm of a name. -/
def ofName? (text : String) : Option PowAlgorithm :=
  [scrypt, sha256d, unspecified].find? fun algorithm => algorithm.name == text

/-- An algorithm is written as its name; an object with the name as its only key and nothing under
it is read as well. -/
instance : JsonForm PowAlgorithm where
  toJson algorithm := .string (some algorithm.name)
  ofJson?
    | .string (some text) => ofName? text
    | .object [(some text, .null)] => ofName? text
    | _ => none

end PowAlgorithm

namespace Network

/-- A network does not demand the marker unless its description says so. -/
def fields : List RecordField :=
  [{ name := "aux_chain_id" }, { name := "merged_mining_enabled" },
   { name := "merged_mining_start_time" }, { name := "pow_algorithm" },
   { name := "require_merged_mining_header", ifMissing := some (.bool false),
     ifCutOff := some (.bool false) }]

instance : JsonForm Network where
  toJson network :=
    record fields
      [toJson network.chainId, toJson network.mergedMining, toJson network.startTime,
       toJson network.algorithm, toJson network.markerRequired]
  ofJson? value := do
    let [chainId, mergedMining, startTime, algorithm, markerRequired] ←
      fields? fields value | none
    return {
      chainId := ← ofJson? chainId
      mergedMining := ← ofJson? mergedMining
      startTime := ← ofJson? startTime
      algorithm := ← ofJson? algorithm
      markerRequired := ← ofJson? markerRequired }

/-- The description of a network, a field on each line. -/
def document (network : Network) : String := (toJson network).pretty

/-- The network that a text describes.  Where it describes none, the complaint that the reader of
the text has about it is passed on. -/
def ofDocument (complaint : String → String) (text : String) : Except Rejection Network :=
  match JsonForm.ofText? text with
  | some network => .ok network
  | none => .error (.config (complaint text))

/-! The description of a network is laid out over lines.  A shorter one that leaves the last field
out says the same of a network which does not demand the marker. -/

example :
    (Network.of 98 .scrypt).document =
      "\x7b\n  \"aux_chain_id\": 98,\n  \"merged_mining_enabled\": true,\n"
        ++ "  \"merged_mining_start_time\": 0,\n  \"pow_algorithm\": \"scrypt\",\n"
        ++ "  \"require_merged_mining_header\": false\n\x7d" := by
  decide +kernel

example :
    (ofDocument id "[98, true, 0, \"scrypt\"]").toOption = some (Network.of 98 .scrypt) := by
  decide +kernel

end Network

end MergedMining
