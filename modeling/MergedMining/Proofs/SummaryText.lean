/-
Module: MergedMining.Proofs.SummaryText
Purpose: The summary of a block tells the parts of the block that it shows, and no others.
Trusted boundary: none
Main exports: unlines_inj, count_newline_unlines, Evidence.AppearsAs, Evidence.lines_inj,
  AuxBlock.lines_inj, AuxBlock.summary_tells_what_it_shows
-/
import MergedMining.Proofs.VersionWord
import MergedMining.Proofs.Wording
import MergedMining.Summary

/-!
A summary is a row of lines, and no line has a newline in it, so the text tells the lines.  A line
begins with words that are the same for all blocks.  What follows is one number or hash, or a few of
them with other words between, and each ends where it is seen to end: a number where its digits do,
a hash after 64 of them.  So the lines tell what they show.

The identities of parent and coinbase are shown in place of what they identify.  For the parent
nothing is lost, since its fields are shown as well; of the coinbase only the identity is told.
-/

namespace MergedMining

open Wording

/-! ## Texts of several lines -/

/-- The characters of a text of lines: those of each line, with a newline behind it. -/
theorem toList_unlines (lines : List String) :
    (unlines lines).toList = lines.flatMap fun line => line.toList ++ ['\n'] := by
  rw [unlines, String.toList_join, List.flatMap_map]
  simp only [String.toList_append]
  rfl

variable {lines others : List String}

/-- A line ends at its newline. -/
theorem line_append_inj {line other : String} {rest otherRest : List Char}
    (unbroken : Unbroken line) (otherUnbroken : Unbroken other)
    (same : line.toList ++ '\n' :: rest = other.toList ++ '\n' :: otherRest) :
    line = other ∧ rest = otherRest := by
  have onLine : ∀ {text : String}, Unbroken text → ∀ c ∈ text.toList, (c != '\n') = true := by
    intro text unbroken c inside
    rw [bne_iff_ne]
    rintro rfl
    exact unbroken inside
  have newline : ∀ rest : List Char, ∀ c, ('\n' :: rest).head? = some c → (c != '\n') = false := by
    intro rest c first
    cases first
    rfl
  obtain ⟨sameLine, behind⟩ :=
    run_append_inj (onLine unbroken) (onLine otherUnbroken) (newline _) (newline _) same
  exact ⟨String.toList_inj.mp sameLine, (List.cons.inj behind).2⟩

/-- A text tells its lines if none of them has a newline in it. -/
theorem unlines_inj (unbroken : ∀ line ∈ lines, Unbroken line)
    (othersUnbroken : ∀ other ∈ others, Unbroken other) :
    unlines lines = unlines others ↔ lines = others := by
  refine ⟨fun same => ?_, congrArg unlines⟩
  have texts := congrArg String.toList same
  rw [toList_unlines, toList_unlines] at texts
  -- the induction is on the lines and any others with the same text
  clear same
  induction lines generalizing others with
  | nil =>
      cases others with
      | nil => rfl
      | cons other others => simp at texts
  | cons line lines ih =>
      cases others with
      | nil => simp at texts
      | cons other others =>
          obtain ⟨head, tail⟩ := List.forall_mem_cons.mp unbroken
          obtain ⟨otherHead, otherTail⟩ := List.forall_mem_cons.mp othersUnbroken
          simp only [List.flatMap_cons, List.append_assoc, List.singleton_append] at texts
          obtain ⟨rfl, behind⟩ := line_append_inj head otherHead texts
          rw [ih tail otherTail behind]

/-- A text of lines has as many newlines as lines. -/
theorem count_newline_unlines (unbroken : ∀ line ∈ lines, Unbroken line) :
    (unlines lines).toList.count '\n' = lines.length := by
  rw [toList_unlines]
  induction lines with
  | nil => rfl
  | cons line lines ih =>
      obtain ⟨head, tail⟩ := List.forall_mem_cons.mp unbroken
      rw [List.flatMap_cons, List.count_append, List.count_append, ih tail,
        List.count_eq_zero_of_not_mem head, List.length_cons]
      show 0 + 1 + lines.length = lines.length + 1
      omega

/-! ## Digits -/

/-- What a digit counts, in any base up to sixteen. -/
def digitValue (c : Char) : Nat := if c.isDigit then c.toNat - 48 else c.toNat - 87

/-- A digit counts what it was printed for. -/
theorem digitValue_digitChar : ∀ d < 16, digitValue d.digitChar = d := by decide

theorem digitChar_ne_newline : ∀ d < 16, d.digitChar ≠ '\n' := by decide

theorem digitChar_inj {d e : Nat} (small : d < 16) (otherSmall : e < 16)
    (same : d.digitChar = e.digitChar) : d = e := by
  rw [← digitValue_digitChar d small, same, digitValue_digitChar e otherSmall]

section Digits

variable {base : Nat} (two : 1 < base) (few : base ≤ 16)
include two few

/-- No number has a newline among its digits, by induction on the digits before the last. -/
theorem not_newline_mem_toDigits (n : Nat) : '\n' ∉ Nat.toDigits base n := by
  induction n using Nat.strongRecOn with
  | ind n ih =>
      rcases Nat.lt_or_ge n base with small | large
      · rw [Nat.toDigits_of_lt_base small, List.mem_singleton]
        exact (digitChar_ne_newline n (by omega)).symm
      · have last := Nat.mod_lt n (Nat.lt_trans Nat.one_pos two)
        rw [Nat.toDigits_of_base_le two large, List.mem_append, List.mem_singleton, not_or]
        exact ⟨ih _ (Nat.div_lt_self (by omega) two), (digitChar_ne_newline _ (by omega)).symm⟩

/-- To count the digits of a number up is to have the number again. -/
theorem foldl_toDigits (n : Nat) :
    (Nat.toDigits base n).foldl (fun value c => base * value + digitValue c) 0 = n := by
  induction n using Nat.strongRecOn with
  | ind n ih =>
      rcases Nat.lt_or_ge n base with small | large
      · rw [Nat.toDigits_of_lt_base small]
        show base * 0 + digitValue n.digitChar = n
        rw [digitValue_digitChar n (by omega), Nat.mul_zero, Nat.zero_add]
      · have last := Nat.mod_lt n (Nat.lt_trans Nat.one_pos two)
        rw [Nat.toDigits_of_base_le two large, List.foldl_append,
          ih _ (Nat.div_lt_self (by omega) two)]
        show base * (n / base) + digitValue (n % base).digitChar = n
        rw [digitValue_digitChar _ (by omega), Nat.div_add_mod]

end Digits

/-! ## Hashes and numbers on a line -/

/-- Bytes are told by their digits, two for each byte. -/
theorem Bytes.hexDigits_inj {bytes other : Bytes}
    (same : Bytes.hexDigits bytes = Bytes.hexDigits other) : bytes = other := by
  induction bytes generalizing other with
  | nil =>
      cases other with
      | nil => rfl
      | cons => simp [Bytes.hexDigits] at same
  | cons byte bytes ih =>
      cases other with
      | nil => simp [Bytes.hexDigits] at same
      | cons otherByte other =>
          simp only [Bytes.hexDigits_cons, List.cons.injEq] at same
          obtain ⟨high, low, behind⟩ := same
          have bound := byte.toNat_lt
          have otherBound := otherByte.toNat_lt
          have sameHigh := digitChar_inj (by omega) (by omega) high
          have sameLow := digitChar_inj (by omega) (by omega) low
          have whole : byte = otherByte := by
            apply UInt8.toNat_inj.mp
            omega
          rw [whole, ih behind]

theorem Bytes.not_newline_mem_hexDigits (bytes : Bytes) : '\n' ∉ bytes.hexDigits := by
  induction bytes with
  | nil => exact List.not_mem_nil
  | cons byte bytes ih =>
      have bound := byte.toNat_lt
      simp only [Bytes.hexDigits_cons, List.mem_cons, not_or]
      exact ⟨(digitChar_ne_newline _ (by omega)).symm, (digitChar_ne_newline _ (by omega)).symm, ih⟩

namespace Hash256

variable {hash other : Hash256}

theorem toList_display (hash : Hash256) :
    hash.display.toList = Bytes.hexDigits hash.bytes.reverse := String.toList_ofList

/-- A hash is told by how it is displayed. -/
theorem display_inj : hash.display = other.display ↔ hash = other := by
  refine ⟨fun same => ?_, congrArg display⟩
  have digits := congrArg String.toList same
  rw [toList_display, toList_display] at digits
  exact Hash256.ext (List.reverse_inj.mp (Bytes.hexDigits_inj digits))

theorem unbroken_display (hash : Hash256) : Unbroken hash.display := by
  rw [Unbroken, toList_display]
  exact Bytes.not_newline_mem_hexDigits _

/-- Every hash is shown in 64 digits. -/
theorem length_toList_display (hash : Hash256) : hash.display.toList.length = 64 := by
  rw [toList_display, Bytes.length_hexDigits, List.length_reverse, hash.length_bytes]

end Hash256

section Numbers

variable {word other : UInt32}

theorem toList_toString_word (word : UInt32) :
    (toString word).toList = Nat.toDigits 10 word.toNat := Nat.toList_repr

/-- A word is told by its decimal digits. -/
theorem toString_word_inj : toString word = toString other ↔ word = other := by
  refine ⟨fun same => ?_, congrArg toString⟩
  have digits := congrArg String.toList same
  rw [toList_toString_word, toList_toString_word] at digits
  exact UInt32.toNat_inj.mp (toDigits_inj digits)

theorem unbroken_toString_word (word : UInt32) : Unbroken (toString word) := by
  rw [Unbroken, toList_toString_word]
  exact not_newline_mem_toDigits (by decide) (by decide) _

theorem toList_hexNumber (n : Nat) :
    (hexNumber n).toList = "0x".toList ++ Nat.toDigits 16 n := by
  rw [hexNumber, String.toList_append, @String.toList_ofList (Nat.toDigits 16 n)]

/-- A number is told by its hexadecimal digits, whatever their number. -/
theorem hexNumber_inj {n m : Nat} : hexNumber n = hexNumber m ↔ n = m := by
  refine ⟨fun same => ?_, congrArg hexNumber⟩
  have texts := congrArg String.toList same
  rw [toList_hexNumber, toList_hexNumber] at texts
  have digits := List.append_cancel_left texts
  have undone : ∀ k, (Nat.toDigits 16 k).foldl (fun value c => 16 * value + digitValue c) 0 = k :=
    foldl_toDigits (by decide) (by decide)
  rw [← undone n, digits, undone]

theorem unbroken_hexNumber (n : Nat) : Unbroken (hexNumber n) := by
  rw [Unbroken, toList_hexNumber, List.mem_append, not_or]
  exact ⟨by decide, not_newline_mem_toDigits (by decide) (by decide) n⟩

end Numbers

/-! ## Times, branches and transactions on a line -/

/-- The calendar adds nothing to the number of seconds before it. -/
theorem timeLine_inj {calendar : Calendar} {time other : UInt32} :
    "      time: [" ++ toString time ++ "] " ++ calendar.text time =
        "      time: [" ++ toString other ++ "] " ++ calendar.text other ↔
      time = other := by
  constructor
  · intro same
    have texts := congrArg String.toList same
    simp only [String.toList_append, List.append_assoc, toList_toString_word] at texts
    -- the bracket behind the seconds is no digit, so the seconds end there
    have plain : ∀ back, StartsPlain ("] ".toList ++ back) := startsPlain_append (c := ']') rfl rfl
    obtain ⟨seconds, -⟩ :=
      number_append_inj (plain _) (plain _) (List.append_cancel_left texts)
    exact UInt32.toNat_inj.mp seconds
  · rintro rfl
    rfl

namespace MerkleBranch

theorem toList_summary (branch : MerkleBranch) :
    branch.summary.toList =
      Nat.toDigits 10 branch.hashes.length ++
        (" hashes, side mask ".toList ++ (hexNumber branch.sideMask.toNat).toList) := by
  simp only [summary, toString, String.toList_append, Nat.toList_repr, List.append_assoc]

/-- Of a branch its length and its sides are told, and of its hashes nothing. -/
theorem summary_inj {branch other : MerkleBranch} :
    branch.summary = other.summary ↔
      branch.hashes.length = other.hashes.length ∧ branch.sideMask = other.sideMask := by
  constructor
  · intro same
    have texts := congrArg String.toList same
    rw [toList_summary, toList_summary] at texts
    have plain : ∀ back, StartsPlain (" hashes, side mask ".toList ++ back) :=
      startsPlain_append (c := ' ') rfl rfl
    obtain ⟨count, behind⟩ := number_append_inj (plain _) (plain _) texts
    have mask := hexNumber_inj.mp (String.toList_inj.mp (List.append_cancel_left behind))
    exact ⟨count, UInt32.toNat_inj.mp mask⟩
  · intro same
    rcases same with ⟨count, sides⟩
    rw [summary, summary, count, sides]

theorem unbroken_summary (branch : MerkleBranch) : Unbroken branch.summary := by
  rw [Unbroken, toList_summary, List.mem_append, List.mem_append, not_or, not_or]
  exact ⟨not_newline_mem_toDigits (by decide) (by decide) _, by decide, unbroken_hexNumber _⟩

end MerkleBranch

variable (hashing : HashFunctions)

namespace Transaction

theorem toList_summary (tx : Transaction) :
    (tx.summary hashing).toList =
      (tx.id hashing).display.toList ++ (" (".toList ++ (Nat.toDigits 10 tx.inputs.length ++
        (" in, ".toList ++ (Nat.toDigits 10 tx.outputs.length ++ " out)".toList)))) := by
  simp only [summary, toString, String.toList_append, Nat.toList_repr, List.append_assoc]

/-- Of a transaction its identity and the numbers of its inputs and outputs are told. -/
theorem summary_inj {tx other : Transaction} :
    tx.summary hashing = other.summary hashing ↔
      tx.id hashing = other.id hashing ∧ tx.inputs.length = other.inputs.length ∧
        tx.outputs.length = other.outputs.length := by
  constructor
  · intro same
    have texts := congrArg String.toList same
    rw [toList_summary, toList_summary] at texts
    have width : (tx.id hashing).display.toList.length =
        (other.id hashing).display.toList.length := by
      rw [Hash256.length_toList_display, Hash256.length_toList_display]
    obtain ⟨identity, behind⟩ := List.append_inj texts width
    have plain : ∀ back, StartsPlain (" in, ".toList ++ back) :=
      startsPlain_append (c := ' ') rfl rfl
    obtain ⟨inputs, last⟩ :=
      number_append_inj (plain _) (plain _) (List.append_cancel_left behind)
    have outputs := List.append_cancel_right (List.append_cancel_left last)
    exact ⟨Hash256.display_inj.mp (String.toList_inj.mp identity), inputs, toDigits_inj outputs⟩
  · intro same
    rcases same with ⟨identity, inputs, outputs⟩
    rw [summary, summary, identity, inputs, outputs]

theorem unbroken_summary (tx : Transaction) : Unbroken (tx.summary hashing) := by
  have digits : ∀ n, '\n' ∉ Nat.toDigits 10 n := not_newline_mem_toDigits (by decide) (by decide)
  rw [Unbroken, toList_summary]
  simp only [List.mem_append, not_or]
  exact ⟨(tx.id hashing).unbroken_display, by decide, digits _, by decide, digits _, by decide⟩

end Transaction

/-! ## Evidence and blocks -/

/-- What a summary shows of evidence is the same of both. -/
structure Evidence.AppearsAs (evidence other : Evidence) : Prop where
  parent : evidence.parent = other.parent
  identity : evidence.coinbase.id hashing = other.coinbase.id hashing
  inputs : evidence.coinbase.inputs.length = other.coinbase.inputs.length
  outputs : evidence.coinbase.outputs.length = other.coinbase.outputs.length
  coinbaseHashes : evidence.coinbaseBranch.hashes.length = other.coinbaseBranch.hashes.length
  coinbaseSides : evidence.coinbaseBranch.sideMask = other.coinbaseBranch.sideMask
  chainHashes : evidence.chainBranch.hashes.length = other.chainBranch.hashes.length
  chainSides : evidence.chainBranch.sideMask = other.chainBranch.sideMask

namespace Evidence

/-- No line of evidence is broken by what it shows. -/
theorem unbroken_lines (evidence : Evidence) :
    ∀ line ∈ evidence.lines hashing, Unbroken line := by
  simp only [lines, List.forall_mem_cons, unbroken_append_iff, Hash256.unbroken_display,
    unbroken_toString_word, Transaction.unbroken_summary, MerkleBranch.unbroken_summary, and_true]
  simp [Unbroken]

/-- The lines of evidence tell what a summary shows of it, as each line tells its part. -/
theorem lines_inj {evidence other : Evidence} :
    evidence.lines hashing = other.lines hashing ↔ evidence.AppearsAs hashing other := by
  constructor
  · intro same
    simp only [lines, List.cons.injEq, String.append_right_inj, String.append_left_inj,
      toString_word_inj, Version.word_inj, Hash256.display_inj, Transaction.summary_inj,
      MerkleBranch.summary_inj, and_true] at same
    obtain ⟨-, version, previous, merkleRoot, time, bits, nonce, ⟨identity, inputs, outputs⟩,
      ⟨coinbaseHashes, coinbaseSides⟩, chainHashes, chainSides⟩ := same
    have parent : evidence.parent = other.parent := by
      rw [BlockHeader.mk.injEq]
      exact ⟨version, previous, merkleRoot, time, bits, nonce⟩
    exact ⟨parent, identity, inputs, outputs, coinbaseHashes, coinbaseSides, chainHashes,
      chainSides⟩
  · intro alike
    have coinbase :=
      (Transaction.summary_inj hashing).mpr ⟨alike.identity, alike.inputs, alike.outputs⟩
    have coinbaseBranch := MerkleBranch.summary_inj.mpr ⟨alike.coinbaseHashes, alike.coinbaseSides⟩
    have chainBranch := MerkleBranch.summary_inj.mpr ⟨alike.chainHashes, alike.chainSides⟩
    rw [lines, lines, alike.parent, coinbase, coinbaseBranch, chainBranch]

end Evidence

namespace AuxBlock

variable (calendar : Calendar) {block other : AuxBlock}

/-- No line of a block is broken, as the calendar puts none of its texts on two lines. -/
theorem unbroken_lines (block : AuxBlock) :
    ∀ line ∈ block.lines hashing calendar, Unbroken line := by
  rw [lines, List.forall_mem_append]
  constructor
  · simp only [List.forall_mem_cons, unbroken_append_iff, unbroken_toString_word,
      calendar.unbroken, and_true]
    simp [Unbroken]
  · cases block.evidence with
    | none => exact List.forall_mem_nil _
    | some evidence =>
        exact List.forall_mem_cons.mpr ⟨List.not_mem_nil, evidence.unbroken_lines hashing⟩

/-- A block has four lines, and eleven more if it has evidence. -/
theorem length_lines (block : AuxBlock) :
    (block.lines hashing calendar).length = if block.evidence.isSome then 15 else 4 := by
  rw [lines]
  cases block.evidence with
  | none => rfl
  | some evidence => rfl

/-- Headers are told apart by four of their fields, and evidence by what is shown of it. -/
theorem lines_inj :
    block.lines hashing calendar = other.lines hashing calendar ↔
      block.header.version = other.header.version ∧ block.header.time = other.header.time ∧
        block.header.bits = other.header.bits ∧ block.header.nonce = other.header.nonce ∧
        (block.evidence = none ∧ other.evidence = none ∨
          ∃ evidence otherEvidence, block.evidence = some evidence ∧
            other.evidence = some otherEvidence ∧ evidence.AppearsAs hashing otherEvidence) := by
  simp only [lines, List.cons_append, List.nil_append, List.cons.injEq, String.append_right_inj,
    toString_word_inj, Version.word_inj, timeLine_inj]
  cases block.evidence with
  | none =>
      cases other.evidence with
      | none => simp
      | some => simp
  | some evidence =>
      cases other.evidence with
      | none => simp
      | some otherEvidence => simp [Evidence.lines_inj]

/-- A summary tells what it shows and nothing else.  Two blocks have the same summary exactly if
their headers agree but for the hashes, and both have no evidence, or both have evidence of the same
parent, with coinbases of one identity and size and branches of the same sizes and sides.  It has
four lines without evidence and fifteen with evidence, so it tells these apart too. -/
theorem summary_tells_what_it_shows (hashing : HashFunctions) (calendar : Calendar) :
    (∀ block other : AuxBlock,
      block.summary hashing calendar = other.summary hashing calendar ↔
        block.header.version = other.header.version ∧ block.header.time = other.header.time ∧
          block.header.bits = other.header.bits ∧ block.header.nonce = other.header.nonce ∧
          (block.evidence = none ∧ other.evidence = none ∨
            ∃ evidence otherEvidence, block.evidence = some evidence ∧
              other.evidence = some otherEvidence ∧ evidence.AppearsAs hashing otherEvidence)) ∧
    ∀ block : AuxBlock,
      (block.summary hashing calendar).toList.count '\n' =
        if block.evidence.isSome then 15 else 4 := by
  constructor
  · intro block other
    rw [summary, summary, unlines_inj (block.unbroken_lines hashing calendar)
      (other.unbroken_lines hashing calendar), lines_inj]
  · intro block
    rw [summary, count_newline_unlines (block.unbroken_lines hashing calendar), length_lines]

/-- The block before it is not shown. -/
example (header : BlockHeader) (hash : Hash256) :
    (AuxBlock.mk { header with previous := hash } none).summary hashing calendar =
      (AuxBlock.mk header none).summary hashing calendar := rfl

end AuxBlock

end MergedMining
