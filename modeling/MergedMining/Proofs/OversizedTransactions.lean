/-
Module: MergedMining.Proofs.OversizedTransactions
Purpose: Which length a transaction beyond the limits is refused for, and where reading stops.
Trusted boundary: none
Main exports: Wire.readMany_of_front, Transaction.Excess, Transaction.FirstExcess,
  Transaction.FirstExcess.read_eq_error, Transaction.refused_at_first_excess
-/
import MergedMining.Proofs.TransactionCodec

/-!
A transaction may break several limits at once.  Reading refuses it for the length that stands first
in the wire form: the number of inputs, then the script of an input, then the number of outputs,
then the script of an output.  It has then passed over what stands before that length and over the
length itself, and over nothing that is counted by it.
-/

namespace MergedMining

open Wire

namespace Wire

variable {start middle stop : Cursor}

/-- A count above its maximum is refused once it has been read. -/
theorem readLength_of_oversized {what : String} {max count : Nat} (many : max < count)
    (fits : count < UInt64.size)
    (passes : start.Passes (CompactSize.encode (UInt64.ofNat count)) stop) :
    readLength what max start = .error (.oversizedCollection what count max) stop := by
  have kept : (UInt64.ofNat count).toNat = count := UInt64.toNat_ofNat_of_lt' fits
  apply readLength_eq_error_iff.mpr
  refine .inr ⟨UInt64.ofNat count, passes, ?_, ?_⟩
  · rw [kept]
    exact many
  · rw [kept]

/-- Bytes whose length is over the limit are refused behind their length, and none of them is
taken. -/
theorem readVarBytes_of_oversized {what : String} {max : Nat} {bytes : Bytes}
    (many : max < bytes.length) (fits : bytes.length < UInt64.size)
    (passes : start.Passes (encodeLength bytes) stop) :
    readVarBytes what max start = .error (.oversizedCollection what bytes.length max) stop :=
  Read.bind_eq_error_iff.mpr (.inl (readLength_of_oversized many fits passes))

/-- A row is read up to the first value that cannot be read. -/
theorem readMany_of_front {α : Type} {read : Read α} {encode : α → Bytes} {error : DecodeError}
    {front : List α} {count : Nat} (enough : front.length < count)
    (law : ∀ value ∈ front, ∀ start stop, Cursor.Passes start (encode value) stop →
      read start = .ok value stop)
    (passes : start.Passes (front.flatMap encode) middle)
    (failed : read middle = .error error stop) :
    readMany read count start = .error error stop := by
  induction front generalizing start count with
  | nil =>
      cases Cursor.passes_nil_iff.mp passes
      cases count with
      | zero => cases enough
      | succ count => exact Read.bind_eq_error_iff.mpr (.inl failed)
  | cons value front ih =>
      cases count with
      | zero => cases enough
      | succ count =>
          obtain ⟨lawHead, lawTail⟩ := List.forall_mem_cons.mp law
          rw [List.flatMap_cons, Cursor.passes_append_iff] at passes
          rcases passes with ⟨next, head, tail⟩
          refine (Read.bind_of_ok (lawHead _ _ head)).trans ?_
          exact Read.bind_eq_error_iff.mpr
            (.inl (ih (Nat.lt_of_succ_lt_succ enough) lawTail tail))

/-- A row behind its count is refused with the first of its values that cannot be read. -/
theorem readCounted_of_front {α β : Type} {what : String} {max : Nat} {read : Read α}
    {encode : α → Bytes} {next : List α → Read β} {error : DecodeError} {row before after : List α}
    {value : α} {afterCount : Cursor} (room : max < UInt64.size) (few : row.length ≤ max)
    (split : row = before ++ value :: after)
    (law : ∀ value ∈ before, ∀ start stop, Cursor.Passes start (encode value) stop →
      read start = .ok value stop)
    (count : start.Passes (encodeLength row) afterCount)
    (passes : afterCount.Passes (before.flatMap encode) middle)
    (failed : read middle = .error error stop) :
    (readLength what max >>= fun count => readMany read count >>= next) start =
      .error error stop := by
  have enough : before.length < row.length := by simp [split]
  refine (Read.bind_of_ok ((readLength_eq_ok_iff room).mpr ⟨few, count⟩)).trans ?_
  exact Read.bind_eq_error_iff.mpr (.inl (readMany_of_front enough law passes failed))

end Wire

variable {start stop : Cursor}

/-- An input with too long a script is refused behind the length of the script. -/
theorem TxInput.read_of_oversized {input : TxInput} (long : maxScriptSize < input.script.length)
    (fits : input.script.length < UInt64.size)
    (passes : start.Passes (input.outPoint.encode ++ encodeLength input.script) stop) :
    TxInput.read start =
      .error (.oversizedCollection "script_sig byte" input.script.length maxScriptSize) stop := by
  obtain ⟨middle, spent, count⟩ := Cursor.passes_append_iff.mp passes
  refine (Read.bind_of_ok (OutPoint.read_eq_ok_iff.mpr spent)).trans ?_
  exact Read.bind_eq_error_iff.mpr (.inl (readVarBytes_of_oversized long fits count))

/-- An output with too long a script is refused behind the length of the script. -/
theorem TxOutput.read_of_oversized {output : TxOutput}
    (long : maxScriptSize < output.script.length) (fits : output.script.length < UInt64.size)
    (passes : start.Passes
      (Bytes.ofNatLE 8 output.value.toUInt64.toNat ++ encodeLength output.script) stop) :
    TxOutput.read start =
      .error (.oversizedCollection "script_pubkey byte" output.script.length maxScriptSize)
        stop := by
  obtain ⟨middle, amount, count⟩ := Cursor.passes_append_iff.mp passes
  refine (Read.bind_of_ok (readInt64_eq_ok_iff.mpr amount)).trans ?_
  exact Read.bind_eq_error_iff.mpr (.inl (readVarBytes_of_oversized long fits count))

/-- A row in which not every value is short has a first one that is not. -/
theorem exists_first_of_not_forall {α : Type} {short : α → Prop} [DecidablePred short]
    {row : List α} (broken : ¬ ∀ value ∈ row, short value) :
    ∃ before value after, row = before ++ value :: after ∧
      (∀ earlier ∈ before, short earlier) ∧ ¬ short value := by
  cases found : row.find? (fun value => !decide (short value)) with
  | none => exact absurd (by simpa using List.find?_eq_none.mp found) broken
  | some value =>
      obtain ⟨long, before, after, split, clear⟩ := List.find?_eq_some_iff_append.mp found
      exact ⟨before, value, after, split, by simpa using clear, by simpa using long⟩

namespace Transaction

/-- A length in a transaction that is above its maximum. -/
structure Excess where
  /-- What the length counts. -/
  what : String
  count : Nat
  max : Nat
  /-- The wire form up to the length, and with it. -/
  passed : Bytes

variable {tx : Transaction} {excess : Excess}

/-- The wire form as far as the inputs. -/
def encodeVersion (tx : Transaction) : Bytes := Bytes.ofNatLE 4 tx.version.toUInt32.toNat

/-- The length above its maximum before which the wire form has none. -/
inductive FirstExcess (tx : Transaction) : Excess → Prop where
  | inputs (many : 1000 < tx.inputs.length) :
      FirstExcess tx ⟨"input", tx.inputs.length, 1000, tx.encodeVersion ++ encodeLength tx.inputs⟩
  | inputScript {before after : List TxInput} {input : TxInput}
      (few : tx.inputs.length ≤ 1000) (row : tx.inputs = before ++ input :: after)
      (short : ∀ earlier ∈ before, earlier.script.length ≤ 10000)
      (long : 10000 < input.script.length) :
      FirstExcess tx ⟨"script_sig byte", input.script.length, 10000,
        tx.encodeVersion ++ encodeLength tx.inputs ++ before.flatMap TxInput.encode
          ++ (input.outPoint.encode ++ encodeLength input.script)⟩
  | outputs (few : tx.inputs.length ≤ 1000)
      (short : ∀ input ∈ tx.inputs, input.script.length ≤ 10000)
      (many : 1000 < tx.outputs.length) :
      FirstExcess tx ⟨"output", tx.outputs.length, 1000,
        tx.encodeVersion ++ encodeLength tx.inputs ++ tx.inputs.flatMap TxInput.encode
          ++ encodeLength tx.outputs⟩
  | outputScript {before after : List TxOutput} {output : TxOutput}
      (few : tx.inputs.length ≤ 1000)
      (short : ∀ input ∈ tx.inputs, input.script.length ≤ 10000)
      (fewOutputs : tx.outputs.length ≤ 1000) (row : tx.outputs = before ++ output :: after)
      (shortOutputs : ∀ earlier ∈ before, earlier.script.length ≤ 10000)
      (long : 10000 < output.script.length) :
      FirstExcess tx ⟨"script_pubkey byte", output.script.length, 10000,
        tx.encodeVersion ++ encodeLength tx.inputs ++ tx.inputs.flatMap TxInput.encode
          ++ encodeLength tx.outputs ++ before.flatMap TxOutput.encode
          ++ (Bytes.ofNatLE 8 output.value.toUInt64.toNat ++ encodeLength output.script)⟩

/-- What is passed over begins the wire form. -/
theorem FirstExcess.passed_prefix (first : tx.FirstExcess excess) :
    excess.passed <+: tx.encode := by
  cases first with
  | inputs many =>
      refine ⟨tx.inputs.flatMap TxInput.encode ++ (encodeLength tx.outputs
        ++ tx.outputs.flatMap TxOutput.encode ++ Bytes.ofNatLE 4 tx.lockTime.toNat), ?_⟩
      simp only [encode, encodeVersion, List.append_assoc]
  | @inputScript before after input few row short long =>
      refine ⟨input.script ++ Bytes.ofNatLE 4 input.sequence.toNat ++ after.flatMap TxInput.encode
        ++ (encodeLength tx.outputs ++ tx.outputs.flatMap TxOutput.encode
          ++ Bytes.ofNatLE 4 tx.lockTime.toNat), ?_⟩
      simp only [encode, encodeVersion, row, List.flatMap_append, List.flatMap_cons, TxInput.encode,
        encodeVarBytes, List.append_assoc]
  | outputs few short many =>
      refine ⟨tx.outputs.flatMap TxOutput.encode ++ Bytes.ofNatLE 4 tx.lockTime.toNat, ?_⟩
      simp only [encode, encodeVersion, List.append_assoc]
  | @outputScript before after output few short fewOutputs row shortOutputs long =>
      refine ⟨output.script ++ after.flatMap TxOutput.encode
        ++ Bytes.ofNatLE 4 tx.lockTime.toNat, ?_⟩
      simp only [encode, encodeVersion, row, List.flatMap_append, List.flatMap_cons,
        TxOutput.encode, encodeVarBytes, List.append_assoc]

/-- Once its inputs were read within the limits, a transaction is read on from its outputs. -/
theorem read_behind_inputs {middle : Cursor} (few : tx.inputs.length ≤ 1000)
    (short : ∀ input ∈ tx.inputs, input.script.length ≤ 10000)
    (passes : start.Passes
      (tx.encodeVersion ++ encodeLength tx.inputs ++ tx.inputs.flatMap TxInput.encode) middle) :
    read start = (do
      let outputs ← readMany TxOutput.read (← readLength "output" maxOutputs)
      let lockTime ← readUInt32
      return { version := tx.version, inputs := tx.inputs, outputs, lockTime } : Read Transaction)
      middle := by
  obtain ⟨afterCount, counted, row⟩ := Cursor.passes_append_iff.mp passes
  obtain ⟨afterVersion, version, count⟩ := Cursor.passes_append_iff.mp counted
  refine (Read.bind_of_ok (readInt32_eq_ok_iff.mpr version)).trans ?_
  refine (Read.bind_of_ok ((readLength_eq_ok_iff maxInputs_lt_size).mpr ⟨few, count⟩)).trans ?_
  exact Read.bind_of_ok ((readMany_eq_ok_iff TxInput.read_eq_ok_iff).mpr ⟨rfl, short, row⟩)

/-- A transaction is refused for the first length above its maximum, and reading stops behind that
length. -/
theorem FirstExcess.read_eq_error (first : tx.FirstExcess excess) (fits : tx.CountsFit)
    (passes : start.Passes excess.passed stop) :
    read start = .error (.oversizedCollection excess.what excess.count excess.max) stop := by
  cases first with
  | inputs many =>
      obtain ⟨afterVersion, version, count⟩ := Cursor.passes_append_iff.mp passes
      refine (Read.bind_of_ok (readInt32_eq_ok_iff.mpr version)).trans ?_
      exact Read.bind_eq_error_iff.mpr (.inl (readLength_of_oversized many fits.inputs count))
  | @inputScript before after input few row short long =>
      obtain ⟨atInput, earlier, reached⟩ := Cursor.passes_append_iff.mp passes
      obtain ⟨afterCount, counted, front⟩ := Cursor.passes_append_iff.mp earlier
      obtain ⟨afterVersion, version, count⟩ := Cursor.passes_append_iff.mp counted
      have present : input ∈ tx.inputs := by simp [row]
      -- the inputs before the long one are read, so the row fails at that one
      have refused := TxInput.read_of_oversized long (fits.inputScripts input present) reached
      refine (Read.bind_of_ok (readInt32_eq_ok_iff.mpr version)).trans ?_
      refine readCounted_of_front maxInputs_lt_size few row ?_ count front refused
      intro value spent start stop passes
      exact TxInput.read_eq_ok_iff.mpr ⟨short value spent, passes⟩
  | outputs few short many =>
      obtain ⟨afterInputs, front, count⟩ := Cursor.passes_append_iff.mp passes
      rw [read_behind_inputs few short front]
      exact Read.bind_eq_error_iff.mpr (.inl (readLength_of_oversized many fits.outputs count))
  | @outputScript before after output few short fewOutputs row shortOutputs long =>
      obtain ⟨atOutput, earlier, reached⟩ := Cursor.passes_append_iff.mp passes
      obtain ⟨afterCount, counted, outputsFront⟩ := Cursor.passes_append_iff.mp earlier
      obtain ⟨afterInputs, front, count⟩ := Cursor.passes_append_iff.mp counted
      have present : output ∈ tx.outputs := by simp [row]
      have refused := TxOutput.read_of_oversized long (fits.outputScripts output present) reached
      rw [read_behind_inputs few short front]
      refine readCounted_of_front maxOutputs_lt_size fewOutputs row ?_ count outputsFront refused
      intro value paid start stop passes
      exact TxOutput.read_eq_ok_iff.mpr ⟨shortOutputs value paid, passes⟩

/-- Reading reports one fault, so there is one that is the first. -/
theorem FirstExcess.unique {other : Excess} (first : tx.FirstExcess excess)
    (another : tx.FirstExcess other) (fits : tx.CountsFit) : other = excess := by
  have reached : ∀ {excess : Excess}, tx.FirstExcess excess →
      ∃ stop, Cursor.Passes ⟨0, tx.encode⟩ excess.passed stop :=
    fun first => Cursor.exists_passes_iff.mpr first.passed_prefix
  obtain ⟨stop, passes⟩ := reached first
  obtain ⟨otherStop, otherPasses⟩ := reached another
  have same := (first.read_eq_error fits passes).symm.trans (another.read_eq_error fits otherPasses)
  rcases excess with ⟨what, count, max, passed⟩
  rcases other with ⟨otherWhat, otherCount, otherMax, otherPassed⟩
  -- there is one fault, which says what was counted, and one place, which says what was passed over
  cases same
  have split : passed ++ stop.rest = otherPassed ++ stop.rest :=
    passes.rest.symm.trans otherPasses.rest
  cases List.append_cancel_right split
  rfl

/-- A transaction that breaks a limit exceeds one first. -/
theorem exists_firstExcess (broken : ¬ tx.WithinLimits) : ∃ excess, tx.FirstExcess excess := by
  by_cases few : tx.inputs.length ≤ 1000
  · by_cases short : ∀ input ∈ tx.inputs, input.script.length ≤ 10000
    · by_cases fewOutputs : tx.outputs.length ≤ 1000
      · by_cases shortOutputs : ∀ output ∈ tx.outputs, output.script.length ≤ 10000
        · exact absurd ⟨few, fewOutputs, short, shortOutputs⟩ broken
        · obtain ⟨before, output, after, row, clear, long⟩ :=
            exists_first_of_not_forall shortOutputs
          exact ⟨_, .outputScript few short fewOutputs row clear (Nat.not_le.mp long)⟩
      · exact ⟨_, .outputs few short (Nat.not_le.mp fewOutputs)⟩
    · obtain ⟨before, input, after, row, clear, long⟩ := exists_first_of_not_forall short
      exact ⟨_, .inputScript few row clear (Nat.not_le.mp long)⟩
  · exact ⟨_, .inputs (Nat.not_le.mp few)⟩

/-- A transaction that breaks a limit is refused for the length that does so first, wherever its
wire form stands, and the reader is left behind that length. -/
theorem refused_at_first_excess (tx : Transaction) (fits : tx.CountsFit)
    (broken : ¬ tx.WithinLimits) (front back : Bytes) :
    ∃ excess, tx.FirstExcess excess ∧ (∀ other, tx.FirstExcess other → other = excess) ∧
      ∃ start later, Cursor.start (front ++ tx.encode ++ back) front.length = .ok start ∧
        tx.encode = excess.passed ++ later ∧
        read start = .error (.oversizedCollection excess.what excess.count excess.max)
          ⟨front.length + excess.passed.length, later ++ back⟩ := by
  obtain ⟨excess, first⟩ := exists_firstExcess broken
  obtain ⟨later, split⟩ := first.passed_prefix
  have passes : Cursor.Passes ⟨front.length, tx.encode ++ back⟩ excess.passed
      ⟨front.length + excess.passed.length, later ++ back⟩ := by
    refine ⟨?_, rfl⟩
    rw [← split, List.append_assoc]
  refine ⟨excess, first, fun other another => first.unique another fits,
    ⟨front.length, tx.encode ++ back⟩, later, ?_, split.symm, first.read_eq_error fits passes⟩
  rw [List.append_assoc]
  exact Cursor.start_append front _

theorem firstExcess_paying {count : Nat} (long : 10000 < count) :
    (paying count).FirstExcess ⟨"script_pubkey byte", count, 10000,
      (paying count).encodeVersion ++ encodeLength (paying count).inputs
        ++ (paying count).inputs.flatMap TxInput.encode ++ encodeLength (paying count).outputs ++ []
        ++ (Bytes.ofNatLE 8 5 ++ CompactSize.encode (UInt64.ofNat count))⟩ := by
  have length : (List.replicate count (0x51 : UInt8)).length = count := List.length_replicate
  have size : encodeLength (List.replicate count (0x51 : UInt8)) =
      CompactSize.encode (UInt64.ofNat count) := by rw [encodeLength, length]
  have single : 1 ≤ 1000 := by decide
  have short : ∀ input ∈ (paying count).inputs, input.script.length ≤ 10000 := by
    intro input spent
    cases List.mem_singleton.mp spent
    decide
  have first : (paying count).FirstExcess _ :=
    .outputScript single short single (List.nil_append _).symm (List.forall_mem_nil _)
      (length.symm ▸ long)
  rw [length, size] at first
  exact first

/-- A transaction that pays to a script of one byte too many, in the midst of other bytes. -/
theorem refused_at_first_excess_of_long_script :
    (paying 10001).CountsFit ∧ ¬ (paying 10001).WithinLimits ∧
      ∃ start later, Cursor.start ([7] ++ (paying 10001).encode ++ [8, 9]) 1 = .ok start ∧
        read start = .error (.oversizedCollection "script_pubkey byte" 10001 10000)
          ⟨62, later ++ [8, 9]⟩ := by
  have fits : (paying 10001).CountsFit := countsFit_paying (by decide)
  have long : 10000 < (List.replicate 10001 (0x51 : UInt8)).length :=
    List.length_replicate.symm ▸ Nat.lt_succ_self 10000
  have broken : ¬ (paying 10001).WithinLimits := fun limits =>
    absurd (limits.outputScripts _ List.mem_cons_self) (Nat.not_le.mpr long)
  obtain ⟨excess, _, only, start, later, begun, _, refused⟩ :=
    refused_at_first_excess (paying 10001) fits broken [7] [8, 9]
  cases only _ (firstExcess_paying (Nat.lt_succ_self 10000))
  exact ⟨fits, broken, start, later, begun, refused⟩

end Transaction

end MergedMining
