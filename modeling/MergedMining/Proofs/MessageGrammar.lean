/-
Module: MergedMining.Proofs.MessageGrammar
Purpose: The messages that are read as a merge-mined block, and the block that each is read as.
Trusted boundary: none
Main exports: BlockHeader.read_eq_ok_iff, MerkleBranch.read_eq_ok_iff, Evidence.read_eq_ok_iff,
  AuxBlock.read, AuxBlock.decode_eq_startingAt_read, AuxBlock.decode_bare_eq_ok_iff,
  AuxBlock.decode_merged_eq_ok_iff, AuxBlock.decode_accepts_wire_grammar
-/
import MergedMining.AuxBlock
import MergedMining.Proofs.TransactionCodec

/-!
A message that has a block at an offset goes on from there with the wire form of the child header
and, behind a flagged header, with the wire form of evidence within the limits.  What stands before
the offset and after the wire form does not matter, and neither does the parent header's own flag:
nothing follows the parent header.
-/

namespace MergedMining

open Wire

variable {start stop : Cursor}

/-- A header is read from its wire form, and from nothing else. -/
theorem BlockHeader.read_eq_ok_iff {header : BlockHeader} :
    BlockHeader.read start = .ok header stop ↔ start.Passes header.encode stop := by
  simp only [BlockHeader.read, BlockHeader.encode, Read.bind_eq_ok_iff, Read.pure_eq_ok_iff,
    readUInt32_eq_ok_iff, readHash_eq_ok_iff, List.append_assoc, Cursor.passes_append_iff]
  constructor
  · intro accepted
    rcases accepted with ⟨word, afterVersion, versionRow, previous, afterPrevious, previousRow,
      merkleRoot, afterRoot, rootRow, time, afterTime, timeRow, bits, afterBits, bitsRow,
      nonce, _, nonceRow, rfl, rfl⟩
    exact ⟨afterVersion, versionRow, afterPrevious, previousRow, afterRoot, rootRow,
      afterTime, timeRow, afterBits, bitsRow, nonceRow⟩
  · intro passes
    rcases passes with ⟨afterVersion, versionRow, afterPrevious, previousRow, afterRoot, rootRow,
      afterTime, timeRow, afterBits, bitsRow, nonceRow⟩
    exact ⟨header.version.word, afterVersion, versionRow, header.previous, afterPrevious,
      previousRow, header.merkleRoot, afterRoot, rootRow, header.time, afterTime, timeRow,
      header.bits, afterBits, bitsRow, header.nonce, stop, nonceRow, rfl, rfl⟩

namespace MerkleBranch

theorem maxLength_lt_size : maxLength < UInt64.size := by decide

/-- Hashes in a row have nothing between them. -/
theorem readHashes_eq_ok_iff {count : Nat} {hashes : List Hash256} :
    readMany readHash count start = .ok hashes stop ↔
      hashes.length = count ∧ start.Passes (hashes.flatMap Hash256.bytes) stop := by
  have law : ∀ {start : Cursor} {hash : Hash256} {stop : Cursor},
      readHash start = .ok hash stop ↔ True ∧ start.Passes hash.bytes stop := by
    simp [readHash_eq_ok_iff]
  simpa using readMany_eq_ok_iff law

/-- A branch is read from its wire form if it has no more hashes than are admitted; the sides may be
any. -/
theorem read_eq_ok_iff {branch : MerkleBranch} :
    read start = .ok branch stop ↔
      branch.hashes.length ≤ maxLength ∧ start.Passes branch.encode stop := by
  simp only [read, encode, encodeLength, Read.bind_eq_ok_iff, Read.pure_eq_ok_iff,
    readLength_eq_ok_iff maxLength_lt_size, readHashes_eq_ok_iff, readUInt32_eq_ok_iff,
    List.append_assoc, Cursor.passes_append_iff]
  constructor
  · intro accepted
    rcases accepted with ⟨_, counted, ⟨short, count⟩, hashes, afterHashes, ⟨rfl, row⟩, sideMask, _,
      last, rfl, rfl⟩
    exact ⟨short, counted, count, afterHashes, row, last⟩
  · intro accepted
    rcases accepted with ⟨short, counted, count, afterHashes, row, last⟩
    exact ⟨branch.hashes.length, counted, ⟨short, count⟩, branch.hashes, afterHashes, ⟨rfl, row⟩,
      branch.sideMask, stop, last, rfl, rfl⟩

/-- Count and side mask are always there. -/
theorem five_le_length_encode (branch : MerkleBranch) : 5 ≤ branch.encode.length := by
  have count : 0 < (encodeLength branch.hashes).length := CompactSize.length_encode_pos _
  simp only [encode, List.length_append, Bytes.length_ofNatLE]
  omega

end MerkleBranch

namespace Evidence

/-- The limits on evidence that is read, in numbers. -/
theorem withinLimits_iff {evidence : Evidence} :
    evidence.WithinLimits ↔
      (evidence.coinbase.inputs.length ≤ 1000 ∧ evidence.coinbase.outputs.length ≤ 1000 ∧
        (∀ input ∈ evidence.coinbase.inputs, input.script.length ≤ 10000) ∧
        ∀ output ∈ evidence.coinbase.outputs, output.script.length ≤ 10000) ∧
      evidence.coinbaseBranch.hashes.length ≤ 30 ∧ evidence.chainBranch.hashes.length ≤ 30 := by
  rw [← Transaction.withinLimits_iff]
  constructor
  · intro limits
    exact ⟨limits.coinbase, limits.coinbaseBranch, limits.chainBranch⟩
  · intro limits
    exact ⟨limits.1, limits.2.1, limits.2.2⟩

/-- The evidence as it is read when its wire form ends at an offset: within the limits, and with the
offset and the number of bytes noted in it. -/
structure EndsAt (evidence : Evidence) (offset : Nat) : Prop where
  limits : evidence.WithinLimits
  stop : evidence.stop = offset
  length : evidence.length = evidence.encode.length

/-- Evidence is read from its wire form if it keeps to the limits, with its place noted in it. -/
theorem read_eq_ok_iff {evidence : Evidence} :
    read start = .ok evidence stop ↔
      evidence.EndsAt stop.position ∧ start.Passes evidence.encode stop := by
  constructor
  · intro accepted
    simp only [read, Read.bind_eq_ok_iff, Read.pure_eq_ok_iff, position_eq_ok_iff,
      Transaction.read_eq_ok_iff, readHash_eq_ok_iff, MerkleBranch.read_eq_ok_iff,
      BlockHeader.read_eq_ok_iff] at accepted
    rcases accepted with ⟨_, _, ⟨rfl, rfl⟩, coinbase, afterCoinbase, ⟨limits, coinbaseRow⟩,
      parentHash, afterHash, hashRow,
      coinbaseBranch, afterCoinbaseBranch, ⟨coinbaseShort, coinbaseBranchRow⟩,
      chainBranch, afterChainBranch, ⟨chainShort, chainBranchRow⟩,
      parent, final, parentRow, _, _, ⟨rfl, rfl⟩, rfl, rfl⟩
    have passes :
        start.Passes
          (coinbase.encode ++ parentHash.bytes ++ coinbaseBranch.encode ++ chainBranch.encode
            ++ parent.encode) final := by
      simp only [List.append_assoc, Cursor.passes_append_iff]
      exact ⟨afterCoinbase, coinbaseRow, afterHash, hashRow, afterCoinbaseBranch,
        coinbaseBranchRow, afterChainBranch, chainBranchRow, parentRow⟩
    refine ⟨⟨⟨limits, coinbaseShort, chainShort⟩, rfl, ?_⟩, passes⟩
    exact Nat.sub_eq_of_eq_add' passes.position
  · intro accepted
    rcases accepted with ⟨recorded, passes⟩
    have width : stop.position - start.position = evidence.length := by
      rw [recorded.length]
      exact Nat.sub_eq_of_eq_add' passes.position
    obtain ⟨limits, coinbaseShort, chainShort⟩ := recorded.limits
    simp only [encode, List.append_assoc, Cursor.passes_append_iff] at passes
    rcases passes with ⟨afterCoinbase, coinbaseRow, afterHash, hashRow, afterCoinbaseBranch,
      coinbaseBranchRow, afterChainBranch, chainBranchRow, parentRow⟩
    simp only [read, Read.bind_eq_ok_iff, Read.pure_eq_ok_iff, position_eq_ok_iff,
      Transaction.read_eq_ok_iff, readHash_eq_ok_iff, MerkleBranch.read_eq_ok_iff,
      BlockHeader.read_eq_ok_iff]
    refine ⟨_, start, ⟨rfl, rfl⟩, evidence.coinbase, afterCoinbase, ⟨limits, coinbaseRow⟩,
      evidence.parentHash, afterHash, hashRow,
      evidence.coinbaseBranch, afterCoinbaseBranch, ⟨coinbaseShort, coinbaseBranchRow⟩,
      evidence.chainBranch, afterChainBranch, ⟨chainShort, chainBranchRow⟩,
      evidence.parent, stop, parentRow, _, stop, ⟨rfl, rfl⟩, ?_, rfl⟩
    rw [width, ← recorded.stop]

/-- Coinbase, parent hash, two branches and the parent header have a least size each. -/
theorem le_length_encode (evidence : Evidence) : 132 ≤ evidence.encode.length := by
  have coinbase := evidence.coinbase.ten_le_length_encode
  have coinbaseBranch := evidence.coinbaseBranch.five_le_length_encode
  have chainBranch := evidence.chainBranch.five_le_length_encode
  simp only [encode, List.length_append, evidence.parentHash.length_bytes,
    evidence.parent.length_encode, BlockHeader.size]
  omega

end Evidence

/-! ## Blocks

Decoding a block reads the header, and seeks the evidence behind it in the message again.  That
comes to the same as reading on where the header ended, so a block may as well be read in one
pass. -/

namespace AuxBlock

/-- The block at the cursor: evidence follows exactly the flagged headers. -/
def read : Read AuxBlock := do
  let header ← BlockHeader.read
  if header.isAuxPow then
    let evidence ← Evidence.read
    return { header, evidence := some evidence }
  else
    return { header, evidence := none }

variable {header : BlockHeader} {evidence : Evidence} {message : Bytes} {offset : Nat}

/-- A reader may start again at the offset that a header was read up to. -/
theorem start_of_header_read (inside : offset ≤ message.length)
    (accepted : BlockHeader.read ⟨offset, message.drop offset⟩ = .ok header stop) :
    Cursor.start message stop.position = .ok stop := by
  have begun : Cursor.start message offset = .ok ⟨offset, message.drop offset⟩ :=
    Cursor.start_eq_ok_iff.mpr ⟨inside, rfl⟩
  obtain ⟨-, within, -, rest⟩ :=
    Cursor.exists_start_passes_iff.mp ⟨_, begun, BlockHeader.read_eq_ok_iff.mp accepted⟩
  apply Cursor.start_eq_ok_iff.mpr
  refine ⟨within, ?_⟩
  rw [← rest]

/-- Starting again behind the header is the same as reading on there. -/
theorem decode_eq_startingAt_read (message : Bytes) (offset : Nat) :
    decode message offset = (read.startingAt message offset).mapError Rejection.decode := by
  by_cases inside : offset ≤ message.length
  · simp only [decode, Read.startingAt, Cursor.start, inside, if_true, read, bind, EStateM.bind]
    show Except.bind (Except.ok _) _ = _
    simp only [Except.bind]
    cases accepted : BlockHeader.read ⟨offset, message.drop offset⟩ with
    | error error stop => rfl
    | ok header behind =>
        -- the second reader begins where the first one stopped
        have again := start_of_header_read inside accepted
        cases flag : header.isAuxPow with
        | false =>
            simp only [Evidence.decodeFor, flag]
            rfl
        | true =>
            simp only [Evidence.decodeFor, flag, Evidence.decode, Read.startingAt, again, if_true,
              EStateM.bind]
            cases Evidence.read behind with
            | ok evidence stop => rfl
            | error error stop => rfl
  · simp only [decode, Read.startingAt, Cursor.start, inside, if_false]
    rfl

/-- A block without evidence is what an unflagged header is read as. -/
theorem read_bare_eq_ok_iff :
    read start = .ok ⟨header, none⟩ stop ↔
      header.isAuxPow = false ∧ start.Passes header.encode stop := by
  simp only [read, Read.bind_eq_ok_iff, BlockHeader.read_eq_ok_iff]
  constructor
  · intro accepted
    rcases accepted with ⟨found, middle, passes, continued⟩
    cases flag : found.isAuxPow with
    | true =>
        simp only [flag, if_true, Read.bind_eq_ok_iff, Read.pure_eq_ok_iff] at continued
        rcases continued with ⟨_, _, _, same, _⟩
        cases same
    | false =>
        simp [flag, Read.pure_eq_ok_iff] at continued
        rcases continued with ⟨rfl, rfl⟩
        exact ⟨flag, passes⟩
  · intro accepted
    rcases accepted with ⟨flag, passes⟩
    refine ⟨header, stop, passes, ?_⟩
    simp [flag, Read.pure_eq_ok_iff]

/-- A block with evidence is what a flagged header and the evidence behind it are read as. -/
theorem read_merged_eq_ok_iff :
    read start = .ok ⟨header, some evidence⟩ stop ↔
      header.isAuxPow = true ∧ evidence.EndsAt stop.position ∧
        start.Passes (header.encode ++ evidence.encode) stop := by
  simp only [read, Read.bind_eq_ok_iff, BlockHeader.read_eq_ok_iff, Cursor.passes_append_iff]
  constructor
  · intro accepted
    rcases accepted with ⟨found, middle, passes, continued⟩
    cases flag : found.isAuxPow with
    | true =>
        simp only [flag, if_true, Read.bind_eq_ok_iff, Read.pure_eq_ok_iff,
          Evidence.read_eq_ok_iff] at continued
        rcases continued with ⟨_, _, ⟨recorded, row⟩, same, rfl⟩
        cases same
        exact ⟨flag, recorded, middle, passes, row⟩
    | false =>
        simp [flag, Read.pure_eq_ok_iff] at continued
  · intro accepted
    rcases accepted with ⟨flag, recorded, middle, passes, row⟩
    refine ⟨header, middle, passes, ?_⟩
    simp only [flag, if_true, Read.bind_eq_ok_iff, Read.pure_eq_ok_iff, Evidence.read_eq_ok_iff]
    exact ⟨evidence, stop, ⟨recorded, row⟩, rfl, rfl⟩

/-- What is decoded is what is read in one pass from the offset on. -/
theorem decode_eq_ok_iff {block : AuxBlock} :
    decode message offset = .ok block ↔
      offset ≤ message.length ∧
        ∃ stop, read ⟨offset, message.drop offset⟩ = .ok block stop := by
  rw [← Read.startingAt_eq_ok_iff, decode_eq_startingAt_read]
  cases read.startingAt message offset with
  | error error =>
      show (Except.error (.decode error) : Except Rejection AuxBlock) = .ok block ↔ _
      simp only [reduceCtorEq]
  | ok found =>
      show (Except.ok found : Except Rejection AuxBlock) = .ok block ↔ _
      simp only [Except.ok.injEq]

/-- A block without evidence is decoded where the message has an unflagged header. -/
theorem decode_bare_eq_ok_iff :
    decode message offset = .ok ⟨header, none⟩ ↔
      header.isAuxPow = false ∧ offset ≤ message.length ∧
        header.encode <+: message.drop offset := by
  simp only [decode_eq_ok_iff, read_bare_eq_ok_iff, exists_and_left, Cursor.exists_passes_iff]
  exact and_left_comm

/-- A block with evidence is decoded where the message has a flagged header and the evidence behind
it. -/
theorem decode_merged_eq_ok_iff :
    decode message offset = .ok ⟨header, some evidence⟩ ↔
      header.isAuxPow = true ∧
        evidence.EndsAt (offset + (header.encode ++ evidence.encode).length) ∧
        offset ≤ message.length ∧ header.encode ++ evidence.encode <+: message.drop offset := by
  simp only [decode_eq_ok_iff, read_merged_eq_ok_iff]
  constructor
  · intro accepted
    rcases accepted with ⟨inside, stop, flag, recorded, passes⟩
    rw [passes.position] at recorded
    exact ⟨flag, recorded, inside, Cursor.exists_passes_iff.mp ⟨stop, passes⟩⟩
  · intro accepted
    rcases accepted with ⟨flag, recorded, inside, spelled⟩
    have reached : ∃ stop, Cursor.Passes ⟨offset, message.drop offset⟩
        (header.encode ++ evidence.encode) stop := Cursor.exists_passes_iff.mpr spelled
    rcases reached with ⟨stop, passes⟩
    refine ⟨inside, stop, flag, ?_, passes⟩
    rw [passes.position]
    exact recorded

/-- Decoding accepts the wire grammar and nothing else, whatever stands around the wire form and
whichever flag the parent header has. -/
theorem decode_accepts_wire_grammar (message : Bytes) (offset : Nat) (header : BlockHeader) :
    (decode message offset = .ok ⟨header, none⟩ ↔
      header.isAuxPow = false ∧ offset ≤ message.length ∧
        header.encode <+: message.drop offset) ∧
    ∀ evidence : Evidence,
      decode message offset = .ok ⟨header, some evidence⟩ ↔
        header.isAuxPow = true ∧
          ((evidence.coinbase.inputs.length ≤ 1000 ∧ evidence.coinbase.outputs.length ≤ 1000 ∧
            (∀ input ∈ evidence.coinbase.inputs, input.script.length ≤ 10000) ∧
            ∀ output ∈ evidence.coinbase.outputs, output.script.length ≤ 10000) ∧
          evidence.coinbaseBranch.hashes.length ≤ 30 ∧ evidence.chainBranch.hashes.length ≤ 30) ∧
          offset ≤ message.length ∧
          header.encode ++ evidence.encode <+: message.drop offset ∧
          evidence.stop = offset + 80 + evidence.encode.length ∧
          evidence.length = evidence.encode.length := by
  refine ⟨decode_bare_eq_ok_iff, ?_⟩
  intro evidence
  have width : offset + (header.encode ++ evidence.encode).length =
      offset + 80 + evidence.encode.length := by
    rw [List.length_append, header.length_encode, BlockHeader.size, Nat.add_assoc]
  rw [decode_merged_eq_ok_iff, width, ← Evidence.withinLimits_iff]
  constructor
  · intro accepted
    rcases accepted with ⟨flag, recorded, inside, spelled⟩
    exact ⟨flag, recorded.limits, inside, spelled, recorded.stop, recorded.length⟩
  · intro accepted
    rcases accepted with ⟨flag, limits, inside, spelled, stop, length⟩
    exact ⟨flag, ⟨limits, stop, length⟩, inside, spelled⟩

end AuxBlock

end MergedMining
