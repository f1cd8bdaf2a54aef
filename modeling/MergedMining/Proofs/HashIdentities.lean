/-
Module: MergedMining.Proofs.HashIdentities
Purpose: The identity hashes of a decoded block are those of the bytes that it was decoded from.
Trusted boundary: none
Main exports: Bytes.slice, Bytes.overwrite, AuxBlock.WireHashes, AuxBlock.parentHash_eq_error_iff,
  AuxBlock.hashes_of_wire_bytes
-/
import MergedMining.Proofs.MessageSurroundings

/-!
Hashes are computed from what a block was decoded into, and not from the message.  They are those of
the message all the same, since the message has the wire form of each part where the part was read.
-/

namespace MergedMining

open Wire

namespace Bytes

/-- The `count` bytes of a message from an offset on. -/
def slice (message : Bytes) (offset count : Nat) : Bytes := (message.drop offset).take count

/-- The message with other bytes in the place of those at an offset. -/
def overwrite (message : Bytes) (offset : Nat) (field : Bytes) : Bytes :=
  message.take offset ++ field ++ message.drop (offset + field.length)

variable {message front field back : Bytes}

/-- A field is the slice of the message where it stands. -/
theorem slice_of_split (split : message = front ++ field ++ back) :
    message.slice front.length field.length = field := by
  rw [slice, split, List.append_assoc, List.drop_left, List.take_left]

/-- To overwrite a field with one of its width is to exchange it in the split. -/
theorem overwrite_of_split (split : message = front ++ field ++ back) {other : Bytes}
    (width : other.length = field.length) :
    message.overwrite front.length other = front ++ other ++ back := by
  have before : message.take front.length = front := by
    rw [split, List.append_assoc, List.take_left]
  have after : message.drop (front.length + other.length) = back := by
    rw [split, width, ← List.length_append, List.drop_left]
  rw [overwrite, before, after]

/-- A message has bytes at an offset if it splits there. -/
theorem isPrefix_drop_iff {offset : Nat} :
    offset ≤ message.length ∧ field <+: message.drop offset ↔
      ∃ front back, message = front ++ field ++ back ∧ front.length = offset := by
  constructor
  · intro present
    rcases present with ⟨inside, back, rest⟩
    refine ⟨message.take offset, back, ?_, List.length_take_of_le inside⟩
    rw [List.append_assoc, rest, List.take_append_drop]
  · intro layout
    rcases layout with ⟨front, back, rfl, rfl⟩
    constructor
    · simp only [List.length_append, List.append_assoc]
      exact Nat.le_add_right ..
    · rw [List.append_assoc, List.drop_left]
      exact List.prefix_append field back

end Bytes

/-- Every header has a hash by every algorithm, as scrypt does not refuse what blocks ask of it. -/
theorem PowAlgorithm.hash_eq_ok (algorithm : PowAlgorithm) (hashing : HashFunctions)
    (header : BlockHeader) : ∃ hash, algorithm.hash hashing header = .ok hash := by
  cases algorithm with
  | scrypt => exact hashing.scryptHash_eq_ok header.encode
  | sha256d => exact ⟨_, rfl⟩
  | unspecified => exact ⟨_, rfl⟩

namespace Evidence

/-- The parent hash field has one width, whatever stands in it. -/
theorem length_encode_withParentHash (evidence : Evidence) (hash : Hash256) :
    (encode { evidence with parentHash := hash }).length = evidence.encode.length := by
  simp only [encode, List.length_append, hash.length_bytes, evidence.parentHash.length_bytes]

/-- Evidence with another parent hash is read where the evidence is, and as long. -/
theorem EndsAt.withParentHash {evidence : Evidence} {place : Nat}
    (recorded : evidence.EndsAt place) (hash : Hash256) :
    EndsAt { evidence with parentHash := hash } place where
  limits := ⟨recorded.limits.coinbase, recorded.limits.coinbaseBranch, recorded.limits.chainBranch⟩
  stop := recorded.stop
  length := by
    rw [evidence.length_encode_withParentHash]
    exact recorded.length

end Evidence

namespace AuxBlock

variable {message : Bytes} {offset : Nat} {header : BlockHeader} {evidence : Evidence}

/-- Where the bytes of a decoded block stand. -/
theorem decode_merged_iff_split :
    decode message offset = .ok ⟨header, some evidence⟩ ↔
      header.isAuxPow = true ∧
        evidence.EndsAt (offset + (header.encode ++ evidence.encode).length) ∧
        ∃ front back, message = front ++ (header.encode ++ evidence.encode) ++ back ∧
          front.length = offset := by
  rw [decode_merged_eq_ok_iff, Bytes.isPrefix_drop_iff]

/-- The header of a decoded block is hashed as it stands in the message. -/
theorem slice_header {block : AuxBlock} (decoded : decode message offset = .ok block) :
    offset + 80 ≤ message.length ∧ message.slice offset 80 = block.header.encode := by
  rcases block with ⟨header, evidence⟩
  have layout : ∃ front back, message = front ++ header.encode ++ back ∧
      front.length = offset := by
    cases evidence with
    | none =>
        apply Bytes.isPrefix_drop_iff.mp
        exact (decode_bare_eq_ok_iff.mp decoded).2
    | some evidence =>
        obtain ⟨_, _, front, back, split, place⟩ := decode_merged_iff_split.mp decoded
        refine ⟨front, evidence.encode ++ back, ?_, place⟩
        rw [split]
        simp only [List.append_assoc]
  rcases layout with ⟨front, back, split, rfl⟩
  have taken := Bytes.slice_of_split split
  rw [header.length_encode, BlockHeader.size] at taken
  refine ⟨?_, taken⟩
  rw [split, List.length_append, List.length_append, header.length_encode, BlockHeader.size]
  exact Nat.le_add_right ..

/-- The parent header of a decoded block ends where the block ends. -/
theorem slice_parent (decoded : decode message offset = .ok ⟨header, some evidence⟩) :
    80 ≤ evidence.stop ∧ evidence.stop ≤ message.length ∧
      message.slice (evidence.stop - 80) 80 = evidence.parent.encode := by
  obtain ⟨_, recorded, front, back, split, place⟩ := decode_merged_iff_split.mp decoded
  have regrouped : message =
      (front ++ header.encode ++ evidence.coinbase.encode ++ evidence.parentHash.bytes
        ++ evidence.coinbaseBranch.encode ++ evidence.chainBranch.encode)
      ++ evidence.parent.encode ++ back := by
    rw [split, Evidence.encode]
    simp only [List.append_assoc]
  have width := evidence.parent.length_encode
  rw [BlockHeader.size] at width
  have stop := recorded.stop
  simp only [Evidence.encode, List.length_append, width, ← place] at stop
  have taken := Bytes.slice_of_split regrouped
  -- the parent comes last, so its place is counted from the end of the evidence
  have total := congrArg List.length split
  simp only [Evidence.encode, List.length_append, width] at taken total
  refine ⟨by omega, by omega, ?_⟩
  rw [← taken]
  congr 1
  omega

/-- The coinbase of a decoded block is read again at the offset behind the header, and is hashed as
it stands there.  The 32 bytes after it are informational. -/
theorem slice_coinbase (decoded : decode message offset = .ok ⟨header, some evidence⟩) :
    ∃ count after,
      Transaction.read ⟨offset + 80, message.drop (offset + 80)⟩ =
          .ok evidence.coinbase ⟨offset + 80 + count, after⟩ ∧
        message.slice (offset + 80) count = evidence.coinbase.encode ∧
        ∀ hash : Hash256,
          decode (message.overwrite (offset + 80 + count) hash.bytes) offset =
            .ok ⟨header, some { evidence with parentHash := hash }⟩ := by
  obtain ⟨flagged, recorded, front, back, split, place⟩ := decode_merged_iff_split.mp decoded
  have width := header.length_encode
  rw [BlockHeader.size] at width
  have start : (front ++ header.encode).length = offset + 80 := by
    rw [List.length_append, place, width]
  have regrouped : message = (front ++ header.encode) ++ evidence.coinbase.encode ++
      (evidence.parentHash.bytes ++ (evidence.coinbaseBranch.encode
        ++ evidence.chainBranch.encode ++ evidence.parent.encode ++ back)) := by
    rw [split, Evidence.encode]
    simp only [List.append_assoc]
  refine ⟨evidence.coinbase.encode.length, evidence.parentHash.bytes ++
    (evidence.coinbaseBranch.encode ++ evidence.chainBranch.encode ++ evidence.parent.encode
      ++ back), ?_, ?_, ?_⟩
  · apply Transaction.read_eq_ok_iff.mpr
    refine ⟨recorded.limits.coinbase, ?_, rfl⟩
    rw [regrouped, List.append_assoc _ evidence.coinbase.encode, ← start, List.drop_left]
  · rw [← start]
    exact Bytes.slice_of_split regrouped
  · intro hash
    have same : hash.bytes.length = evidence.parentHash.bytes.length := by
      rw [hash.length_bytes, evidence.parentHash.length_bytes]
    rw [← List.append_assoc] at regrouped
    have replaced := Bytes.overwrite_of_split regrouped same
    rw [List.length_append, start] at replaced
    apply decode_merged_iff_split.mpr
    refine ⟨flagged, ?_, front, back, ?_, place⟩
    · rw [List.length_append, evidence.length_encode_withParentHash, ← List.length_append]
      exact recorded.withParentHash hash
    · rw [replaced, Evidence.encode]
      simp only [List.append_assoc]

variable (hashing : HashFunctions)

/-- What header, parent and coinbase of a block are known by. -/
def identities (network : Network) (block : AuxBlock) :
    Hash256 × Except Rejection Hash256 × Option Hash256 :=
  (block.header.hash hashing, block.parentHash hashing network,
    block.evidence.map fun found => found.coinbase.id hashing)

/-- The hashes of a block are those of the bytes of the message that it was decoded from. -/
structure WireHashes (message : Bytes) (offset : Nat) (block : AuxBlock) : Prop where
  header : offset + 80 ≤ message.length ∧
    block.header.hash hashing = hashing.doubleSha256 (message.slice offset 80)
  parent : ∀ evidence, block.evidence = some evidence →
    80 ≤ block.stop ∧ block.stop ≤ message.length ∧
      ∀ network : Network,
        (∃ hash, block.parentHash hashing network = .ok hash) ∧
        block.parentHash hashing network =
          match network.algorithm with
          | .scrypt => hashing.scryptHash (message.slice (block.stop - 80) 80)
          | .sha256d => .ok (hashing.doubleSha256 (message.slice (block.stop - 80) 80))
          | .unspecified => .ok (hashing.doubleSha256 (message.slice (block.stop - 80) 80))
  /-- `count` bytes behind the header are read as the coinbase; the parent hash field is after them,
  and a message with other bytes there has a block with the same hashes. -/
  coinbase : ∀ evidence, block.evidence = some evidence →
    ∃ count after,
      Transaction.read ⟨offset + 80, message.drop (offset + 80)⟩ =
          .ok evidence.coinbase ⟨offset + 80 + count, after⟩ ∧
        evidence.coinbase.id hashing = hashing.doubleSha256 (message.slice (offset + 80) count) ∧
        ∀ hash : Hash256, ∃ other,
          decode (message.overwrite (offset + 80 + count) hash.bytes) offset = .ok other ∧
            other.evidence = some { evidence with parentHash := hash } ∧
            ∀ network, other.identities hashing network = block.identities hashing network

/-- Each part of a decoded block is hashed as it stands in the message. -/
theorem decode_wireHashes {block : AuxBlock} (decoded : decode message offset = .ok block) :
    WireHashes hashing message offset block := by
  refine { header := ?header, parent := ?parent, coinbase := ?coinbase }
  case header =>
    obtain ⟨inside, taken⟩ := slice_header decoded
    rw [BlockHeader.hash, taken]
    exact ⟨inside, rfl⟩
  case parent =>
    intro evidence present
    rcases block with ⟨header, _⟩
    cases present
    obtain ⟨least, inside, taken⟩ := slice_parent decoded
    refine ⟨least, inside, ?_⟩
    intro network
    have hashed : AuxBlock.parentHash hashing network ⟨header, some evidence⟩ =
        network.algorithm.hash hashing evidence.parent := rfl
    have ended : AuxBlock.stop ⟨header, some evidence⟩ = evidence.stop := rfl
    refine ⟨network.algorithm.hash_eq_ok hashing evidence.parent, ?_⟩
    rw [hashed, ended, taken]
    cases network.algorithm with
    | scrypt => rfl
    | sha256d => rfl
    | unspecified => rfl
  case coinbase =>
    intro evidence present
    rcases block with ⟨header, _⟩
    cases present
    obtain ⟨count, after, again, taken, overwritten⟩ := slice_coinbase decoded
    refine ⟨count, after, again, ?_, ?_⟩
    · rw [Transaction.id_eq, taken]
    · intro hash
      exact ⟨_, overwritten hash, rfl, fun _ => rfl⟩

/-- Only want of evidence keeps the parent from being hashed, whatever is wrong with the
evidence. -/
theorem parentHash_eq_error_iff {network : Network} {block : AuxBlock} {rejection : Rejection} :
    block.parentHash hashing network = .error rejection ↔
      block.evidence = none ∧ rejection = .noEvidence := by
  rcases block with ⟨header, evidence⟩
  cases evidence with
  | none => simp [parentHash, eq_comm]
  | some evidence =>
      obtain ⟨hash, hashed⟩ := network.algorithm.hash_eq_ok hashing evidence.parent
      simp [parentHash, hashed]

/-- What a block is identified by does not depend on the way through the decoded structures: the
hashes of header, parent and coinbase are those of the bytes of the message, whatever hash functions
are supplied.  The parent is hashed whenever there is evidence at all. -/
theorem hashes_of_wire_bytes (hashing : HashFunctions) :
    (∀ message offset block, decode message offset = .ok block →
      WireHashes hashing message offset block) ∧
    ∀ (block : AuxBlock) (network : Network) (rejection : Rejection),
      block.parentHash hashing network = .error rejection ↔
        block.evidence = none ∧ rejection = .malformed "block carries no AuxPoW payload" :=
  ⟨fun _ _ _ decoded => decode_wireHashes hashing decoded,
    fun _ _ _ => parentHash_eq_error_iff hashing⟩

/-- The hashes of a block that stands behind one other byte. -/
theorem hashes_of_wire_bytes_of_scripted :
    decode (7 :: scripted.encode) 1 = .ok scripted ∧
      WireHashes .standard (7 :: scripted.encode) 1 scripted :=
  ⟨decode_scripted, (hashes_of_wire_bytes .standard).1 _ _ _ decode_scripted⟩

end AuxBlock

end MergedMining
