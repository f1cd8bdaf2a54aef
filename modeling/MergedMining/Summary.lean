/-
Module: MergedMining.Summary
Purpose: A block and its evidence as lines of text for people.
Trusted boundary: that of `Bytes.Hex`; hash functions and calendar are any
Main exports: Evidence.lines, Evidence.summary, AuxBlock.lines, AuxBlock.summary
-/
import MergedMining.AuxBlock
import MergedMining.CivilTime

/-!
A block without evidence takes four lines.  Evidence takes ten more, after an empty line; of the
coinbase and the branches it shows the identity and the sizes only.
-/

namespace MergedMining

/-- A number in hexadecimal, marked as such. -/
def hexNumber (n : Nat) : String := "0x" ++ String.ofList (Nat.toDigits 16 n)

/-- Lines as a text, each closed by a newline. -/
def unlines (lines : List String) : String := String.join (lines.map (· ++ "\n"))

/-- The size of a branch and the sides of its hashes. -/
def MerkleBranch.summary (branch : MerkleBranch) : String :=
  let count := branch.hashes.length
  let mask := hexNumber branch.sideMask.toNat
  s!"{count} hashes, side mask {mask}"

variable (hashing : HashFunctions) (calendar : Calendar)

/-- The identity of a transaction and the numbers of its inputs and outputs. -/
def Transaction.summary (tx : Transaction) : String :=
  let identity := (tx.id hashing).display
  let inputs := tx.inputs.length
  let outputs := tx.outputs.length
  s!"{identity} ({inputs} in, {outputs} out)"

namespace Evidence

/-- The parent block, its coinbase and the two branches. -/
def lines (evidence : Evidence) : List String :=
  let parent := evidence.parent
  [ "   parent block: " ++ (parent.hash hashing).display,
    "      version: v" ++ toString parent.version.word,
    "      previous block: " ++ parent.previous.display,
    "      merkle root: " ++ parent.merkleRoot.display,
    "      time: [" ++ toString parent.time ++ "]",
    "      difficulty target (nBits): " ++ toString parent.bits,
    "      nonce: " ++ toString parent.nonce,
    "   parent coinbase: " ++ evidence.coinbase.summary hashing,
    "   coinbase branch: " ++ evidence.coinbaseBranch.summary,
    "   chain branch: " ++ evidence.chainBranch.summary ]

/-- The lines of evidence as a text. -/
def summary (evidence : Evidence) : String := unlines (evidence.lines hashing)

end Evidence

namespace AuxBlock

/-- The child header's version, time, target and nonce, and the evidence if there is any. -/
def lines (block : AuxBlock) : List String :=
  let header := block.header
  [ "      version: v" ++ toString header.version.word,
    "      time: [" ++ toString header.time ++ "] " ++ calendar.text header.time,
    "      difficulty target (nBits): " ++ toString header.bits,
    "      nonce: " ++ toString header.nonce ]
    ++ match block.evidence with
      | none => []
      | some evidence => "" :: evidence.lines hashing

/-- The lines of a block as a text. -/
def summary (block : AuxBlock) : String := unlines (block.lines hashing calendar)

end AuxBlock

end MergedMining
