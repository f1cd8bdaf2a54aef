/-
Module: MergedMining.Proofs.MessageSurroundings
Purpose: What the bytes before and after a block have to do with the outcome of reading it.
Trusted boundary: none
Main exports: Wire.Local.fieldByField, Evidence.read_moves, AuxBlock.read_growing,
  AuxBlock.read_moves, AuxBlock.decode_awaits_whole_block, AuxBlock.decode_translation
-/
import MergedMining.Proofs.FieldByField
import MergedMining.Proofs.ReadLocality

/-!
A client that receives a message in pieces may try to read the block in it after each piece.  Short
of the whole block the answer is that more bytes are needed, never a block and never another fault;
from there on the answer is the block, whatever follows.  A fault that is not a want of bytes stays.

A block may stand anywhere.  Bytes put before it move the offsets that are reported by their number,
those of faults included, and change nothing else.
-/

namespace MergedMining

open Wire

/-- The faults of a read are the only rejections that its caller sees. -/
theorem Rejection.mapError_decode_eq_error_iff {α : Type} {outcome : Except DecodeError α}
    {rejection : Rejection} :
    outcome.mapError Rejection.decode = .error rejection ↔
      ∃ error, Rejection.decode error = rejection ∧ outcome = .error error := by
  cases outcome with
  | ok value =>
      show (Except.ok value : Except Rejection α) = .error rejection ↔ _
      simp only [reduceCtorEq, and_false, exists_false]
  | error fault =>
      show (Except.error (.decode fault) : Except Rejection α) = .error rejection ↔ _
      simp only [Except.error.injEq, exists_eq_right']

/-! ## The parts of a block -/

/-- The fields of a block are read from their own bytes, wherever these stand. -/
theorem Wire.Local.fieldByField : FieldByField Local where
  pure := .pure
  bind := .bind
  readExactly _ := .readExactly _
  readLength _ := readLength_local ..
  readVarBytes _ := readVarBytes_local ..

/-- More bytes at the end can only help the read of a field that ran out of them. -/
theorem Wire.Growing.fieldByField : FieldByField Growing where
  pure := .pure
  bind := .bind
  readExactly _ := .readExactly _
  readLength _ := (readLength_local ..).growing
  readVarBytes _ := (readVarBytes_local ..).growing

namespace Evidence

/-- The same evidence, read from a message with `count` more bytes at its beginning. -/
def behind (count : Nat) (evidence : Evidence) : Evidence :=
  { evidence with stop := count + evidence.stop }

/-- Evidence is read alike behind more bytes, but for the offset of its end. -/
theorem read_moves (count : Nat) : Moves count (behind count) read read := by
  apply Moves.position.bind
  intro start
  apply (Local.fieldByField.transaction.moves count).bind
  intro coinbase
  apply (Local.fieldByField.readHash.moves count).bind
  intro parentHash
  apply (Local.fieldByField.merkleBranch.moves count).bind
  intro coinbaseBranch
  apply (Local.fieldByField.merkleBranch.moves count).bind
  intro chainBranch
  apply (Local.fieldByField.blockHeader.moves count).bind
  intro parent
  apply Moves.position.bind
  intro stop
  -- both ends move, so the number of bytes between them stays
  rw [Nat.add_sub_add_left]
  exact .pure (behind count) ⟨parent, coinbase, parentHash, coinbaseBranch, chainBranch, stop, _⟩

end Evidence

namespace AuxBlock

/-- More bytes at the end can only help the read of a block that ran out of them. -/
theorem read_growing : Growing read := Growing.fieldByField.auxBlock .position

/-- The same block, read from a message with `count` more bytes at its beginning. -/
def behind (count : Nat) (block : AuxBlock) : AuxBlock :=
  { block with evidence := block.evidence.map (Evidence.behind count) }

/-- A block is read alike behind more bytes, but for the offset in its evidence. -/
theorem read_moves (count : Nat) : Moves count (behind count) read read := by
  apply (Local.fieldByField.blockHeader.moves count).bind
  intro header
  simp only [id]
  cases flag : header.isAuxPow with
  | true =>
      apply (Evidence.read_moves count).bind
      intro evidence
      exact .pure (behind count) ⟨header, some evidence⟩
  | false => exact .pure (behind count) ⟨header, none⟩

/-! ## Messages that are cut off or go on -/

/-- The offset just past the block in a message where it stands at `offset`. -/
def endFrom (block : AuxBlock) (offset : Nat) : Nat :=
  if block.header.isAuxPow then block.stop else offset + 80

variable {message : Bytes} {offset : Nat} {block : AuxBlock} {stop : Cursor}

/-- A block ends where the read of it stops. -/
theorem position_eq_endFrom (accepted : read ⟨offset, message.drop offset⟩ = .ok block stop) :
    stop.position = block.endFrom offset := by
  rcases block with ⟨header, evidence⟩
  cases evidence with
  | none =>
      obtain ⟨unflagged, passes⟩ := read_bare_eq_ok_iff.mp accepted
      rw [passes.position, header.length_encode]
      simp [endFrom, unflagged, BlockHeader.size]
  | some evidence =>
      obtain ⟨flagged, recorded, _⟩ := read_merged_eq_ok_iff.mp accepted
      rw [← recorded.stop]
      simp [endFrom, flagged, AuxBlock.stop]

/-- The faults of decoding a block are those of reading it in one pass. -/
theorem decode_eq_error_iff {error : DecodeError} :
    decode message offset = .error (.decode error) ↔
      read.startingAt message offset = .error error := by
  rw [decode_eq_startingAt_read, Rejection.mapError_decode_eq_error_iff]
  simp only [Rejection.decode.injEq, exists_eq_left]

/-- Nothing is decoded from an offset past the end of the message. -/
theorem decode_of_short (short : message.length < offset) :
    decode message offset = .error (.decode (.cursorOutOfRange offset message.length)) := by
  apply decode_eq_error_iff.mpr
  simp only [Read.startingAt, Cursor.start, Nat.not_le.mpr short, if_false]

/-- A message that is cut off inside a block ends too early for some field that begins before the
cut and belongs to the block. -/
theorem decode_take (decoded : decode message offset = .ok block) {cut : Nat}
    (inside : offset ≤ cut) (early : cut < block.endFrom offset) :
    ∃ place needed remaining,
      decode (message.take cut) offset =
          .error (.decode (.unexpectedEnd place needed remaining)) ∧
        offset ≤ place ∧ place + remaining = cut ∧ remaining < needed ∧
          place + needed ≤ block.endFrom offset := by
  obtain ⟨_, stop, accepted⟩ := decode_eq_ok_iff.mp decoded
  have reached := position_eq_endFrom accepted
  rw [← reached] at early ⊢
  obtain ⟨place, needed, remaining, starved, numbers⟩ :=
    read_growing.startingAt_take accepted inside early
  exact ⟨place, needed, remaining, decode_eq_error_iff.mpr starved, numbers⟩

/-- A block whose coinbase has an input with a script of three bytes, as it is read behind one other
byte. -/
def scripted : AuxBlock where
  header := ⟨⟨0x100⟩, .zero, .zero, 0, 0, 0⟩
  evidence := some
    { parent := ⟨⟨0⟩, .zero, .zero, 0, 0, 0⟩
      coinbase := ⟨1, [⟨.null, [1, 2, 3], 0⟩], [], 0⟩
      parentHash := .zero
      coinbaseBranch := ⟨[.zero], 1⟩
      chainBranch := .empty
      stop := 289
      length := 208 }

theorem decode_scripted : decode (7 :: scripted.encode) 1 = .ok scripted := by
  apply decode_merged_eq_ok_iff.mpr
  refine ⟨by decide, ⟨⟨⟨by decide, by decide, by decide, by decide⟩, by decide, by decide⟩,
    by decide +kernel, by decide +kernel⟩, Nat.le_add_left .., List.prefix_rfl⟩

/-- Reading a block waits for the whole of it and for nothing more.  A message that is cut off
inside the block ends too early for a field that begins before the cut; a block that was read, and a
fault that is not a want of bytes, stay whatever follows. -/
theorem decode_awaits_whole_block (message : Bytes) (offset : Nat) :
    (∀ block, decode message offset = .ok block → ∀ cut,
      (offset ≤ cut → cut < block.endFrom offset →
        ∃ place needed remaining,
          decode (message.take cut) offset =
              .error (.decode (.unexpectedEnd place needed remaining)) ∧
            offset ≤ place ∧ place + remaining = cut ∧ remaining < needed ∧
              place + needed ≤ block.endFrom offset) ∧
      (cut < offset →
        decode (message.take cut) offset =
          .error (.decode (.cursorOutOfRange offset cut)))) ∧
    ∀ back,
      ((∃ block, decode message offset = .ok block) ∨
        (∃ place, decode message offset = .error (.decode (.nonCanonicalVarInt place))) ∨
        ∃ what count max,
          decode message offset = .error (.decode (.oversizedCollection what count max))) →
      decode (message ++ back) offset = decode message offset := by
  constructor
  · intro block decoded cut
    constructor
    · intro inside early
      exact decode_take decoded inside early
    · intro before
      obtain ⟨within, _⟩ := decode_eq_ok_iff.mp decoded
      have width : (message.take cut).length = cut := List.length_take_of_le (by omega)
      rw [decode_of_short (by rw [width]; exact before), width]
  · intro back conclusive
    have settled : Growing.Settled (read.startingAt message offset) := by
      rcases conclusive with ⟨block, decoded⟩ | ⟨place, refused⟩ | ⟨what, count, max, refused⟩
      · rw [Read.startingAt_eq_ok_iff.mpr (decode_eq_ok_iff.mp decoded)]
        exact .read block
      · rw [decode_eq_error_iff.mp refused]
        exact .refused (.nonCanonical place)
      · rw [decode_eq_error_iff.mp refused]
        exact .refused (.oversized what count max)
    rw [decode_eq_startingAt_read, decode_eq_startingAt_read,
      read_growing.startingAt_append settled]

/-- A message cut off before its block and inside the script in it, and the message going on. -/
theorem decode_awaits_whole_block_of_scripted :
    decode (7 :: scripted.encode) 1 = .ok scripted ∧
      decode ((7 :: scripted.encode).take 0) 1 = .error (.decode (.cursorOutOfRange 1 0)) ∧
      124 < scripted.endFrom 1 ∧
      (∃ place needed remaining,
        decode ((7 :: scripted.encode).take 124) 1 =
            .error (.decode (.unexpectedEnd place needed remaining)) ∧
          1 ≤ place ∧ place + remaining = 124 ∧ remaining < needed ∧
            place + needed ≤ scripted.endFrom 1) ∧
      decode (7 :: scripted.encode ++ [8, 9]) 1 = decode (7 :: scripted.encode) 1 := by
  have early : 124 < scripted.endFrom 1 := by decide
  obtain ⟨cutOff, goingOn⟩ := decode_awaits_whole_block (7 :: scripted.encode) 1
  exact ⟨decode_scripted, (cutOff scripted decode_scripted 0).2 (by decide), early,
    (cutOff scripted decode_scripted 124).1 (by decide) early,
    goingOn [8, 9] (.inl ⟨scripted, decode_scripted⟩)⟩

/-! ## Messages that begin earlier -/

/-- The offset just past the evidence moves along, and stays 0 without evidence. -/
theorem stop_behind (block : AuxBlock) (count : Nat) :
    (block.behind count).stop = if block.evidence.isSome then count + block.stop else 0 := by
  rcases block with ⟨header, evidence⟩
  cases evidence with
  | none => rfl
  | some evidence => rfl

end AuxBlock

/-- The same rejection of a message with `count` more bytes at its beginning. -/
def Rejection.behind (count : Nat) : Rejection → Rejection
  | .decode error => .decode (error.behind count)
  | other => other

/-- A read that moves with its message moves with it as a decoder does: its value and its faults are
shifted alike. -/
theorem Wire.Moves.mapError_startingAt {α : Type} {read : Read α} {shift : α → α}
    {front message : Bytes} {offset : Nat} (moves : Moves front.length shift read read) :
    (read.startingAt (front ++ message) (front.length + offset)).mapError Rejection.decode =
      (((read.startingAt message offset).mapError Rejection.decode).map shift).mapError
        (Rejection.behind front.length) := by
  rw [moves.startingAt]
  cases read.startingAt message offset with
  | ok value => rfl
  | error error => rfl

namespace AuxBlock

/-- Blocks and evidence are decoded behind other bytes as they are without them.  The bytes put
before the message move the offsets, in what is read and in what is at fault, and nothing else. -/
theorem decode_translation (front message : Bytes) (offset : Nat) :
    decode (front ++ message) (front.length + offset) =
        ((decode message offset).map (behind front.length)).mapError
          (Rejection.behind front.length) ∧
      Evidence.decode (front ++ message) (front.length + offset) =
        ((Evidence.decode message offset).map (Evidence.behind front.length)).mapError
          (Rejection.behind front.length) ∧
      ∀ block : AuxBlock,
        (block.behind front.length).stop =
          if block.evidence.isSome then front.length + block.stop else 0 := by
  refine ⟨?_, ?_, fun block => block.stop_behind _⟩
  · rw [decode_eq_startingAt_read, decode_eq_startingAt_read]
    exact (read_moves front.length).mapError_startingAt
  · exact (Evidence.read_moves front.length).mapError_startingAt

end AuxBlock

end MergedMining
