/-
Module: MergedMining.Proofs.SelfDelimiting
Purpose: The wire form of a transaction tells where it ends, whatever the size of the transaction.
Trusted boundary: none
Main exports: Wire.SelfDelimiting, Wire.SelfDelimiting.of_read, Wire.SelfDelimiting.countedRow,
  Transaction.encode_selfDelimiting, Transaction.wire_form_determines_transaction
-/
import MergedMining.Proofs.TransactionCodec

/-!
Bytes that begin with a wire form begin with no other, so they determine the value and the bytes
behind it.  For a field this follows from the law of its read.  A transaction beyond the limits is
not read at all, and so rows are compared element by element: their counts come first, and rows of
one count have their elements' ends in the same places.
-/

namespace MergedMining

open Wire

namespace Wire

variable {α : Type}

/-- No wire form of an admitted value is the beginning of another's. -/
def SelfDelimiting (admitted : α → Prop) (encode : α → Bytes) : Prop :=
  ∀ one other, admitted one → admitted other → ∀ back otherBack,
    encode one ++ back = encode other ++ otherBack → one = other ∧ back = otherBack

namespace SelfDelimiting

variable {admitted : α → Prop} {encode : α → Bytes}

/-- A read that takes the wire form of a value has no choice. -/
theorem of_read (read : Read α)
    (law : ∀ start value stop, admitted value → Cursor.Passes start (encode value) stop →
      read start = .ok value stop) :
    SelfDelimiting admitted encode := by
  intro one other good otherGood back otherBack same
  have first : read ⟨0, encode one ++ back⟩ = .ok one ⟨(encode one).length, back⟩ :=
    law _ _ _ good ⟨rfl, (Nat.zero_add _).symm⟩
  have second : read ⟨0, encode one ++ back⟩ = .ok other ⟨(encode other).length, otherBack⟩ :=
    law _ _ _ otherGood ⟨same, (Nat.zero_add _).symm⟩
  rw [first] at second
  cases second
  exact ⟨rfl, rfl⟩

/-- Rows of one length. -/
theorem row (element : SelfDelimiting admitted encode) {values others : List α}
    (good : ∀ value ∈ values, admitted value) (othersGood : ∀ other ∈ others, admitted other)
    (count : values.length = others.length) {back otherBack : Bytes}
    (same : values.flatMap encode ++ back = others.flatMap encode ++ otherBack) :
    values = others ∧ back = otherBack := by
  induction values generalizing others with
  | nil =>
      cases others with
      | nil => exact ⟨rfl, same⟩
      | cons => cases count
  | cons value values ih =>
      cases others with
      | nil => cases count
      | cons other others =>
          obtain ⟨goodHead, goodTail⟩ := List.forall_mem_cons.mp good
          obtain ⟨otherHead, otherTail⟩ := List.forall_mem_cons.mp othersGood
          simp only [List.flatMap_cons, List.append_assoc] at same
          obtain ⟨rfl, behind⟩ := element _ _ goodHead otherHead _ _ same
          obtain ⟨rfl, rest⟩ := ih goodTail otherTail (Nat.succ.inj count) behind
          exact ⟨rfl, rest⟩

end SelfDelimiting

/-! Fields of a fixed width. -/

theorem uint32_selfDelimiting :
    SelfDelimiting (fun _ => True) fun word : UInt32 => Bytes.ofNatLE 4 word.toNat :=
  .of_read readUInt32 fun _ _ _ _ passes => readUInt32_eq_ok_iff.mpr passes

/-- Signed words have the width of unsigned ones. -/
theorem int32_selfDelimiting :
    SelfDelimiting (fun _ => True) fun word : Int32 => Bytes.ofNatLE 4 word.toUInt32.toNat :=
  .of_read readInt32 fun _ _ _ _ passes => readInt32_eq_ok_iff.mpr passes

theorem int64_selfDelimiting :
    SelfDelimiting (fun _ => True) fun word : Int64 => Bytes.ofNatLE 8 word.toUInt64.toNat :=
  .of_read readInt64 fun _ _ _ _ passes => readInt64_eq_ok_iff.mpr passes

/-! Counts, and what stands behind them, as long as a count has room in a compact size. -/

theorem count_le_iff_lt_size {count : Nat} : count ≤ UInt64.size - 1 ↔ count < UInt64.size := by
  have positive : 0 < UInt64.size := by decide
  omega

/-- A count ends where its first byte says. -/
theorem encodeLength_selfDelimiting :
    SelfDelimiting (fun count => count < UInt64.size)
      (fun count => CompactSize.encode (UInt64.ofNat count)) := by
  apply SelfDelimiting.of_read (readLength "" (UInt64.size - 1))
  intro start count stop fits passes
  exact (readLength_eq_ok_iff (by decide)).mpr ⟨count_le_iff_lt_size.mpr fits, passes⟩

/-- Bytes end where the length before them says. -/
theorem encodeVarBytes_selfDelimiting :
    SelfDelimiting (fun bytes => bytes.length < UInt64.size) encodeVarBytes := by
  apply SelfDelimiting.of_read (readVarBytes "" (UInt64.size - 1))
  intro start bytes stop fits passes
  exact (readVarBytes_eq_ok_iff (by decide)).mpr ⟨count_le_iff_lt_size.mpr fits, passes⟩

/-- Rows behind their counts. -/
theorem SelfDelimiting.countedRow {admitted : α → Prop} {encode : α → Bytes}
    (element : SelfDelimiting admitted encode) {values others : List α}
    (fits : values.length < UInt64.size) (othersFit : others.length < UInt64.size)
    (good : ∀ value ∈ values, admitted value) (othersGood : ∀ other ∈ others, admitted other)
    {back otherBack : Bytes}
    (same : encodeLength values ++ (values.flatMap encode ++ back) =
      encodeLength others ++ (others.flatMap encode ++ otherBack)) :
    values = others ∧ back = otherBack := by
  obtain ⟨count, rows⟩ := encodeLength_selfDelimiting _ _ fits othersFit _ _ same
  exact element.row good othersGood count rows

end Wire

/-! The parts of a transaction, and the whole. -/

theorem OutPoint.encode_selfDelimiting : SelfDelimiting (fun _ => True) OutPoint.encode :=
  .of_read OutPoint.read fun _ _ _ _ passes => OutPoint.read_eq_ok_iff.mpr passes

/-- An input ends behind its script, whose length is told before it, and a word. -/
theorem TxInput.encode_selfDelimiting :
    SelfDelimiting (fun input => input.script.length < UInt64.size) TxInput.encode := by
  intro one other fits otherFits back otherBack same
  simp only [TxInput.encode, List.append_assoc] at same
  obtain ⟨outPoint, fromScript⟩ := OutPoint.encode_selfDelimiting _ _ trivial trivial _ _ same
  obtain ⟨script, fromSequence⟩ :=
    encodeVarBytes_selfDelimiting _ _ fits otherFits _ _ fromScript
  obtain ⟨sequence, behind⟩ := uint32_selfDelimiting _ _ trivial trivial _ _ fromSequence
  cases one
  cases other
  cases outPoint
  cases script
  cases sequence
  exact ⟨rfl, behind⟩

/-- An output ends with its script. -/
theorem TxOutput.encode_selfDelimiting :
    SelfDelimiting (fun output => output.script.length < UInt64.size) TxOutput.encode := by
  intro one other fits otherFits back otherBack same
  simp only [TxOutput.encode, List.append_assoc] at same
  obtain ⟨value, fromScript⟩ := int64_selfDelimiting _ _ trivial trivial _ _ same
  obtain ⟨script, behind⟩ := encodeVarBytes_selfDelimiting _ _ fits otherFits _ _ fromScript
  cases one
  cases other
  cases value
  cases script
  exact ⟨rfl, behind⟩

namespace Transaction

/-- A transaction ends behind its second row and a word, since each row ends where its count
says. -/
theorem encode_selfDelimiting : SelfDelimiting CountsFit encode := by
  intro one other fits otherFits back otherBack same
  simp only [encode, List.append_assoc] at same
  obtain ⟨version, fromInputs⟩ := int32_selfDelimiting _ _ trivial trivial _ _ same
  obtain ⟨inputs, fromOutputs⟩ := TxInput.encode_selfDelimiting.countedRow fits.inputs
    otherFits.inputs fits.inputScripts otherFits.inputScripts fromInputs
  obtain ⟨outputs, fromLockTime⟩ := TxOutput.encode_selfDelimiting.countedRow fits.outputs
    otherFits.outputs fits.outputScripts otherFits.outputScripts fromOutputs
  obtain ⟨lockTime, behind⟩ := uint32_selfDelimiting _ _ trivial trivial _ _ fromLockTime
  cases one
  cases other
  cases version
  cases inputs
  cases outputs
  cases lockTime
  exact ⟨rfl, behind⟩

/-- Bytes that begin with the wire form of a transaction determine it and what stands behind it, so
that no wire form is the beginning of another, and distinct transactions are identified by the
hashes of distinct byte strings. -/
theorem wire_form_determines_transaction (one other : Transaction) (fits : one.CountsFit)
    (otherFits : other.CountsFit) :
    (∀ back otherBack, one.encode ++ back = other.encode ++ otherBack ↔
      one = other ∧ back = otherBack) ∧
    (one.encode <+: other.encode ↔ one = other) ∧
    (one ≠ other → one.encode ≠ other.encode ∧ ∀ hashing : HashFunctions,
      one.id hashing = hashing.doubleSha256 one.encode ∧
        other.id hashing = hashing.doubleSha256 other.encode) := by
  have law := encode_selfDelimiting one other fits otherFits
  have whole : one.encode = other.encode → one = other := by
    intro same
    rw [← List.append_nil one.encode, ← List.append_nil other.encode] at same
    exact (law [] [] same).1
  refine ⟨?surrounded, ?begun, ?hashed⟩
  case surrounded =>
    intro back otherBack
    constructor
    · exact law back otherBack
    · intro same
      rw [same.1, same.2]
  case begun =>
    constructor
    · intro begins
      rcases begins with ⟨back, split⟩
      rw [← List.append_nil other.encode] at split
      exact (law back [] split).1
    · rintro rfl
      exact List.prefix_rfl
  case hashed =>
    intro distinct
    exact ⟨fun same => distinct (whole same),
      fun hashing => ⟨one.id_eq hashing, other.id_eq hashing⟩⟩

/-- Two transactions that are too large to be read, and differ only at the end of a script. -/
theorem wire_form_determines_transaction_of_long_scripts :
    (paying 10001).CountsFit ∧ (paying 10002).CountsFit ∧
      (¬ ∃ back, (paying 10001).encode ++ back = (paying 10002).encode ++ [7]) ∧
      ¬ (paying 10001).encode <+: (paying 10002).encode ∧
      (paying 10001).encode ≠ (paying 10002).encode := by
  have fits : (paying 10001).CountsFit := countsFit_paying (by decide)
  have otherFits : (paying 10002).CountsFit := countsFit_paying (by decide)
  have distinct : paying 10001 ≠ paying 10002 := fun same => absurd (paying_inj.mp same) (by decide)
  obtain ⟨surrounded, begun, hashed⟩ :=
    wire_form_determines_transaction (paying 10001) (paying 10002) fits otherFits
  refine ⟨fits, otherFits, ?_, fun begins => distinct (begun.mp begins), (hashed distinct).1⟩
  rintro ⟨back, same⟩
  exact distinct ((surrounded back [7]).mp same).1

end Transaction

end MergedMining
