/-
Module: MergedMining.Proofs.VersionWord
Purpose: What is read from a version word that was packed, and which words packing gives.
Trusted boundary: none
Main exports: Version.toNat_word_pack, Version.toNat_chainId_lt, Version.toNat_chainId_pack,
  Version.chainId_pack_of_lt, Version.packing_keeps_fields_apart
-/
import Mathlib.Algebra.Group.Nat.Defs
import MergedMining.Version

/-!
A word is the sum of its fields, each times the weight of its lowest bit.  Packing cuts the numbers
that it is given to the widths of their fields, so the fields do not overlap, and joining them bit
by bit is the same as adding them.  What is read from a word is a quotient or a remainder of it, so
everything about packing comes down to the sum.
-/

namespace MergedMining.Version

/-- The bits from 9 to 15, which have no meaning. -/
def idleBits : UInt32 := 0xfe00

example : ∀ bit < 32, idleBits.toNat.testBit bit = decide (9 ≤ bit ∧ bit ≤ 15) := by decide

theorem word_inj {one other : Version} : one.word = other.word ↔ one = other := by
  cases one
  cases other
  simp

/-- To mask a number with a field is to cut the field out of it. -/
theorem and_field (n start width : Nat) :
    n &&& 2 ^ start * (2 ^ width - 1) = 2 ^ start * (n / 2 ^ start % 2 ^ width) := by
  apply Nat.eq_of_testBit_eq
  intro bit
  rw [Nat.testBit_and, Nat.testBit_two_pow_mul, Nat.testBit_two_pow_mul,
    Nat.testBit_two_pow_sub_one, Nat.testBit_mod_two_pow, Nat.testBit_div_two_pow]
  by_cases inside : start ≤ bit
  · simp [inside, Bool.and_comm]
  · simp [inside]

/-! ## The fields of a word -/

section Fields

variable (version : Version)

/-- The chain id is the upper half of the word. -/
theorem toNat_chainId : version.chainId.toNat = version.word.toNat / 65536 := by
  rw [chainId, UInt32.toNat_div]
  rfl

/-- A version has room for 16 bits of a chain id. -/
theorem toNat_chainId_lt : version.chainId.toNat < 65536 := by
  have word : version.word.toNat < 4294967296 := version.word.toNat_lt
  rw [toNat_chainId]
  exact Nat.div_lt_of_lt_mul word

/-- The base version is the lowest byte of the word. -/
theorem toNat_base : version.base.toNat = version.word.toNat % 256 := by
  rw [base, UInt32.toNat_mod]
  rfl

/-- The flag is the bit above the base version. -/
theorem isAuxPow_eq : version.isAuxPow = decide (version.word.toNat / 256 % 2 = 1) := by
  have flag : (version.word &&& auxPowFlag).toNat = 256 * (version.word.toNat / 256 % 2) := by
    rw [UInt32.toNat_and]
    exact and_field _ 8 1
  have clear : version.word &&& auxPowFlag = 0 ↔ version.word.toNat / 256 % 2 = 0 := by
    rw [← UInt32.toNat_inj, flag, UInt32.toNat_zero]
    omega
  rw [isAuxPow, bne, Bool.eq_iff_iff, Bool.not_eq_true', beq_eq_false_iff_ne, ne_eq, clear,
    decide_eq_true_eq]
  omega

theorem toNat_and_idleBits :
    (version.word &&& idleBits).toNat = 512 * (version.word.toNat / 512 % 128) := by
  rw [UInt32.toNat_and]
  exact and_field _ 9 7

/-- The idle bits are the seven between flag and chain id. -/
theorem and_idleBits_eq_zero_iff :
    version.word &&& idleBits = 0 ↔ version.word.toNat / 512 % 128 = 0 := by
  rw [← UInt32.toNat_inj, toNat_and_idleBits, UInt32.toNat_zero]
  omega

theorem toNat_and_not_idleBits :
    (version.word &&& ~~~idleBits).toNat =
      65536 * (version.word.toNat / 65536) + version.word.toNat % 512 := by
  have word : version.word.toNat < 4294967296 := version.word.toNat_lt
  -- the mask keeps the upper half and the nine lowest bits
  have mask : (~~~idleBits).toNat = 2 ^ 16 * (2 ^ 16 - 1) ||| 2 ^ 9 - 1 := by decide
  have small : version.word.toNat % 2 ^ 9 < 2 ^ 16 := by omega
  rw [UInt32.toNat_and, mask, Nat.and_or_distrib_left, and_field,
    Nat.and_two_pow_sub_one_eq_mod, ← Nat.two_pow_add_eq_or_of_lt small]
  omega

end Fields

/-! ## Packed words -/

section Packed

variable (chainId base : UInt32) (isAuxPow : Bool)

/-- A packed word is the sum of its fields. -/
theorem toNat_word_pack :
    (pack chainId base isAuxPow).word.toNat =
      65536 * (chainId.toNat % 65536) + 256 * isAuxPow.toNat + base.toNat % 256 := by
  have baseSmall : base.toNat % 2 ^ 8 < 2 ^ 8 := Nat.mod_lt _ (by decide)
  have flagSmall : isAuxPow.toNat ≤ 1 := isAuxPow.toNat_le
  have flag : (if isAuxPow then auxPowFlag else 0).toNat = 2 ^ 8 * isAuxPow.toNat := by
    cases isAuxPow <;> rfl
  -- fields that do not overlap are joined as they are added
  have low : (base % auxPowFlag).toNat ||| (if isAuxPow then auxPowFlag else 0).toNat =
      2 ^ 8 * isAuxPow.toNat + base.toNat % 2 ^ 8 := by
    rw [flag, Nat.or_comm, UInt32.toNat_mod]
    exact (Nat.two_pow_add_eq_or_of_lt baseSmall _).symm
  -- the product wraps around, by which the chain id is cut to 16 bits
  have high : (chainId * chainStart).toNat = 2 ^ 16 * (chainId.toNat % 65536) := by
    have weight : chainStart.toNat = 65536 := rfl
    rw [UInt32.toNat_mul, weight]
    omega
  calc
    (pack chainId base isAuxPow).word.toNat
        = 2 ^ 16 * (chainId.toNat % 65536) |||
            (2 ^ 8 * isAuxPow.toNat + base.toNat % 2 ^ 8) := by
          rw [pack, UInt32.toNat_or, UInt32.toNat_or, Nat.or_assoc, low, high]
    _ = 2 ^ 16 * (chainId.toNat % 65536) + (2 ^ 8 * isAuxPow.toNat + base.toNat % 2 ^ 8) :=
          (Nat.two_pow_add_eq_or_of_lt (by omega) _).symm
    _ = 65536 * (chainId.toNat % 65536) + 256 * isAuxPow.toNat + base.toNat % 256 := by
          omega

theorem toNat_chainId_pack :
    (pack chainId base isAuxPow).chainId.toNat = chainId.toNat % 65536 := by
  have flagSmall : isAuxPow.toNat ≤ 1 := isAuxPow.toNat_le
  rw [toNat_chainId, toNat_word_pack]
  omega

/-- A packed version has the lower half of the chain id, whatever stands above it. -/
theorem chainId_pack : (pack chainId base isAuxPow).chainId = chainId % 65536 := by
  rw [← UInt32.toNat_inj, toNat_chainId_pack, UInt32.toNat_mod]
  rfl

/-- A packed version has the lowest byte of the base. -/
theorem base_pack : (pack chainId base isAuxPow).base = base % 256 := by
  have modulus : (256 : UInt32).toNat = 256 := rfl
  rw [← UInt32.toNat_inj, toNat_base, toNat_word_pack, UInt32.toNat_mod, modulus]
  omega

/-- A packed version has the flag that it was packed with. -/
theorem isAuxPow_pack : (pack chainId base isAuxPow).isAuxPow = isAuxPow := by
  have bit : (pack chainId base isAuxPow).word.toNat / 256 % 2 = isAuxPow.toNat := by
    have flagSmall : isAuxPow.toNat ≤ 1 := isAuxPow.toNat_le
    rw [toNat_word_pack]
    omega
  rw [isAuxPow_eq, bit]
  cases isAuxPow <;> rfl

/-- Packing leaves the idle bits clear. -/
theorem word_pack_and_idleBits : (pack chainId base isAuxPow).word &&& idleBits = 0 := by
  have flagSmall : isAuxPow.toNat ≤ 1 := isAuxPow.toNat_le
  rw [and_idleBits_eq_zero_iff, toNat_word_pack]
  omega

end Packed

theorem chainId_pack_of_lt {chainId : UInt32} (small : chainId.toNat < 65536) (base : UInt32)
    (isAuxPow : Bool) : (pack chainId base isAuxPow).chainId = chainId := by
  apply UInt32.toNat_inj.mp
  rw [toNat_chainId_pack, Nat.mod_eq_of_lt small]

/-- To pack what was read from a word is to clear the bits without meaning. -/
theorem word_pack_fields (version : Version) :
    (pack version.chainId version.base version.isAuxPow).word = version.word &&& ~~~idleBits := by
  have flag : version.isAuxPow.toNat = version.word.toNat / 256 % 2 := by
    rw [isAuxPow_eq]
    rcases Nat.mod_two_eq_zero_or_one (version.word.toNat / 256) with clear | set
    · rw [clear]
      rfl
    · rw [set]
      rfl
  have word : version.word.toNat < 4294967296 := version.word.toNat_lt
  rw [← UInt32.toNat_inj, toNat_and_not_idleBits, toNat_word_pack, toNat_chainId, toNat_base, flag]
  omega

/-- A version is packed again from its fields exactly if its idle bits are clear. -/
theorem pack_fields_eq_iff (version : Version) :
    pack version.chainId version.base version.isAuxPow = version ↔
      version.word &&& idleBits = 0 := by
  have same : pack version.chainId version.base version.isAuxPow = version ↔
      (version.word &&& ~~~idleBits).toNat = version.word.toNat := by
    rw [UInt32.toNat_inj, ← word_pack_fields, word_inj]
  rw [same, toNat_and_not_idleBits, and_idleBits_eq_zero_iff]
  omega

/-- Packing keeps the three fields apart.  Each is read back from the packed word, cut to its width,
whatever the others are, and the bits without meaning are clear; a word is packed again from its own
fields but for those bits.  So chain ids and bases that fit their fields are determined by the word
that they are packed to. -/
theorem packing_keeps_fields_apart :
    (∀ (chainId base : UInt32) (isAuxPow : Bool),
      (pack chainId base isAuxPow).chainId = chainId % 65536 ∧
        (pack chainId base isAuxPow).base = base % 256 ∧
        (pack chainId base isAuxPow).isAuxPow = isAuxPow ∧
        (pack chainId base isAuxPow).word &&& idleBits = 0) ∧
    (∀ version : Version,
      (pack version.chainId version.base version.isAuxPow).word =
          version.word &&& ~~~idleBits ∧
        (pack version.chainId version.base version.isAuxPow = version ↔
          version.word &&& idleBits = 0)) ∧
    (∀ (chainId otherChainId base otherBase : UInt32) (isAuxPow otherFlag : Bool),
      chainId < 65536 → otherChainId < 65536 → base < 256 → otherBase < 256 →
        (pack chainId base isAuxPow = pack otherChainId otherBase otherFlag ↔
          chainId = otherChainId ∧ base = otherBase ∧ isAuxPow = otherFlag)) ∧
    ∀ (chainId otherChainId base otherBase : UInt32) (isAuxPow otherFlag : Bool),
      (pack chainId base isAuxPow).chainId = (pack chainId otherBase otherFlag).chainId ∧
        (pack chainId base isAuxPow).base = (pack otherChainId base otherFlag).base ∧
        (pack chainId base isAuxPow).isAuxPow =
          (pack otherChainId otherBase isAuxPow).isAuxPow := by
  refine ⟨?readBack, ?repacked, ?injective, ?independent⟩
  case readBack =>
    intro chainId base isAuxPow
    exact ⟨chainId_pack .., base_pack .., isAuxPow_pack .., word_pack_and_idleBits ..⟩
  case repacked =>
    intro version
    exact ⟨word_pack_fields version, pack_fields_eq_iff version⟩
  case injective =>
    intro chainId otherChainId base otherBase isAuxPow otherFlag chainFits otherChainFits baseFits
      otherBaseFits
    constructor
    · intro same
      have chains := congrArg Version.chainId same
      have bases := congrArg Version.base same
      have flags := congrArg Version.isAuxPow same
      rw [chainId_pack, chainId_pack, UInt32.mod_eq_of_lt chainFits,
        UInt32.mod_eq_of_lt otherChainFits] at chains
      rw [base_pack, base_pack, UInt32.mod_eq_of_lt baseFits,
        UInt32.mod_eq_of_lt otherBaseFits] at bases
      rw [isAuxPow_pack, isAuxPow_pack] at flags
      exact ⟨chains, bases, flags⟩
    · rintro ⟨rfl, rfl, rfl⟩
      rfl
  case independent =>
    intro chainId otherChainId base otherBase isAuxPow otherFlag
    refine ⟨?_, ?_, ?_⟩
    · rw [chainId_pack, chainId_pack]
    · rw [base_pack, base_pack]
    · rw [isAuxPow_pack, isAuxPow_pack]

/-- The largest numbers that fit, next to a number that differs from them in one field only. -/
theorem packing_keeps_fields_apart_at_limits :
    (0xffff : UInt32) < 65536 ∧ (0xff : UInt32) < 256 ∧
      pack 0xffff 0xff true ≠ pack 0xffff 0xff false ∧
      pack 0xffff 0xff true ≠ pack 0xfffe 0xff true ∧
      (pack 0xffff 0xff true).word = 0xffff01ff := by
  obtain ⟨-, -, injective, -⟩ := packing_keeps_fields_apart
  have flagged := injective 0xffff 0xffff 0xff 0xff true false (by decide) (by decide) (by decide)
    (by decide)
  have chained := injective 0xffff 0xfffe 0xff 0xff true true (by decide) (by decide) (by decide)
    (by decide)
  refine ⟨by decide, by decide, ?_, ?_, by decide⟩
  · intro same
    exact absurd (flagged.mp same).2.2 (by decide)
  · intro same
    exact absurd (chained.mp same).1 (by decide)

end MergedMining.Version
