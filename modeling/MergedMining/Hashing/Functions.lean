/-
Module: MergedMining.Hashing.Functions
Purpose: The hash functions that blocks and transactions are identified by, as they are supplied.
Trusted boundary: the laws in `HashFunctions`; they are what is relied on of supplied functions, and
  are proved here of the functions of this library
Main exports: HashFunctions, HashFunctions.doubleSha256, HashFunctions.scryptHash,
  HashFunctions.scryptHash_eq_ok, HashFunctions.standard
-/
import MergedMining.Hashing.Scrypt
import MergedMining.Rejection

/-!
Hashes are computed by functions that are supplied from outside, and all that is proved of the
hashes of blocks holds for whichever are supplied.  SHA-256 cannot fail.  Scrypt may refuse its
parameters or the size of its output, with a complaint of its own, and a caller has to be prepared
for that; it does not refuse those of blocks.
-/

namespace MergedMining

open Hashing

/-- Supplied hash functions. -/
structure HashFunctions where
  sha256 : Bytes → Hash256
  /-- SHA-256 of the SHA-256 digest, as one function. -/
  sha256Twice : Bytes → Hash256
  /-- Whether scrypt works at a cost for an output of some size, with its complaint if it does
  not. -/
  scryptParameters : Scrypt.Cost → (size : Nat) → Except String Unit
  /-- Scrypt with output of some size, or its complaint about that size. -/
  scrypt : Scrypt.Cost → (password salt : Bytes) → (size : Nat) →
    Except String { bytes : Bytes // bytes.length = size }
  sha256Twice_eq (message : Bytes) : sha256Twice message = sha256 (sha256 message).bytes
  takes_blockCost : scryptParameters blockCost Hash256.size = .ok ()
  gives_hashSize (message : Bytes) :
    ∃ output, scrypt blockCost message message Hash256.size = .ok output

namespace HashFunctions

variable (hashing : HashFunctions)

/-- SHA-256 of the SHA-256 digest. -/
def doubleSha256 (message : Bytes) : Hash256 := hashing.sha256 (hashing.sha256 message).bytes

/-- Scrypt at the cost for blocks, the message being its own salt. -/
def scryptHash (message : Bytes) : Except Rejection Hash256 := do
  (hashing.scryptParameters blockCost Hash256.size).mapError fun complaint =>
    .hashing s!"invalid scrypt parameters: {complaint}"
  let output ← (hashing.scrypt blockCost message message Hash256.size).mapError fun complaint =>
    .hashing s!"scrypt output: {complaint}"
  return ⟨output.val, output.property⟩

/-- The hash for blocks is what scrypt puts out. -/
theorem scryptHash_of_output {message : Bytes}
    {output : { bytes : Bytes // bytes.length = Hash256.size }}
    (hashed : hashing.scrypt blockCost message message Hash256.size = .ok output) :
    hashing.scryptHash message = .ok ⟨output.val, output.property⟩ := by
  rw [scryptHash, hashing.takes_blockCost, hashed]
  rfl

/-- Neither the parameters nor the output of the hash for blocks are ever refused. -/
theorem scryptHash_eq_ok (message : Bytes) : ∃ hash, hashing.scryptHash message = .ok hash := by
  obtain ⟨output, hashed⟩ := hashing.gives_hashSize message
  exact ⟨_, hashing.scryptHash_of_output hashed⟩

/-- The functions of this library, which refuse what scrypt is not defined for. -/
def standard : HashFunctions where
  sha256 := Hashing.sha256
  sha256Twice message := Hashing.sha256 (Hashing.sha256 message).bytes
  scryptParameters cost _ := if cost.isAdmissible then .ok () else .error "the cost is not admitted"
  scrypt cost password salt size :=
    if Scrypt.isAdmissibleSize size then
      .ok ⟨Hashing.scrypt cost password salt size, length_scrypt ..⟩
    else
      .error "the size of the output is not admitted"
  sha256Twice_eq _ := rfl
  takes_blockCost := rfl
  gives_hashSize _ := ⟨_, rfl⟩

end HashFunctions

end MergedMining
