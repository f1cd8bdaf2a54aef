/-
Module: MergedMining.Proofs.Activation
Purpose: A network takes a merge-mined block past its activation rules and verification only.
Trusted boundary: none
Main exports: Network.OpenAt, AuxBlock.Ordinary, AuxBlock.Ruling, AuxBlock.accept_eq_iff,
  AuxBlock.accept_eq_ok_iff, AuxBlock.accept_eq_error_iff, AuxBlock.accept_admits_no_bypass
-/
import MergedMining.Proofs.VerificationOrder

/-!
The rules concern every block but those with neither flag nor evidence.  Flag and evidence come
apart in blocks that were not read from a message, so each of the four combinations is ruled on.
Times are compared as numbers: that of a block has 32 bits, that of a network 64.
-/

namespace MergedMining

/-- The network takes merge-mined blocks, and those of the given time already. -/
structure Network.OpenAt (network : Network) (time : UInt32) : Prop where
  enabled : network.mergedMining = true
  started : network.startTime.toNat ≤ time.toNat

namespace AuxBlock

/-- The block has nothing to do with merged mining. -/
structure Ordinary (block : AuxBlock) : Prop where
  unflagged : block.header.isAuxPow = false
  bare : block.evidence = none

/-- How a network decides on a block. -/
inductive Ruling (network : Network) (block : AuxBlock) : Except Rejection Unit → Prop where
  | ordinary (ordinary : block.Ordinary) :
      Ruling network block (.ok ())
  | disabled (merged : ¬ block.Ordinary) (off : network.mergedMining = false) :
      Ruling network block (.error .disabled)
  | notStarted (merged : ¬ block.Ordinary) (enabled : network.mergedMining = true)
      (early : block.header.time.toNat < network.startTime.toNat) :
      Ruling network block (.error (.notStarted block.header.time.toUInt64 network.startTime))
  | verified {verdict : Except Rejection Unit} (merged : ¬ block.Ordinary)
      (taken : network.OpenAt block.header.time) (verified : block.verify network = verdict) :
      Ruling network block verdict

variable {network : Network} {block : AuxBlock} {rejection : Rejection}

/-- The first test of acceptance is passed by blocks with neither flag nor evidence. -/
theorem ordinary_iff :
    (!block.header.isAuxPow && block.evidence.isNone) = true ↔ block.Ordinary := by
  simp only [Bool.and_eq_true, Bool.not_eq_true', Option.isNone_iff_eq_none]
  constructor
  · intro passed
    exact ⟨passed.1, passed.2⟩
  · intro ordinary
    exact ⟨ordinary.unflagged, ordinary.bare⟩

/-- To compare the time of a block in 64 bits is to compare the numbers. -/
theorem early_iff :
    block.header.time.toUInt64 < network.startTime ↔
      block.header.time.toNat < network.startTime.toNat := by
  rw [UInt64.lt_iff_toNat_lt, UInt32.toNat_toUInt64]

theorem accept_of_ordinary (ordinary : block.Ordinary) : block.accept network = .ok () := by
  rw [accept, if_pos (ordinary_iff.mpr ordinary)]

/-- A network without merged mining refuses every other block, whenever it was solved. -/
theorem accept_of_disabled (merged : ¬ block.Ordinary) (off : network.mergedMining = false) :
    block.accept network = .error .disabled := by
  rw [accept, if_neg (ordinary_iff.not.mpr merged), if_pos (by rw [off]; rfl)]

/-- A block before the start time is refused before its evidence is looked at. -/
theorem accept_of_early (merged : ¬ block.Ordinary) (enabled : network.mergedMining = true)
    (early : block.header.time.toNat < network.startTime.toNat) :
    block.accept network =
      .error (.notStarted block.header.time.toUInt64 network.startTime) := by
  rw [accept, if_neg (ordinary_iff.not.mpr merged), if_neg (by simp [enabled]),
    if_pos (early_iff.mpr early)]

/-- Past both gates a block is accepted if it is verified. -/
theorem accept_of_open (merged : ¬ block.Ordinary) (taken : network.OpenAt block.header.time) :
    block.accept network = block.verify network := by
  have late : ¬ block.header.time.toUInt64 < network.startTime :=
    early_iff.not.mpr (Nat.not_lt.mpr taken.started)
  rw [accept, if_neg (ordinary_iff.not.mpr merged), if_neg (by simp [taken.enabled]),
    if_neg late]

/-- What a network decides on a block is one of the four rulings. -/
theorem accept_ruling (network : Network) (block : AuxBlock) :
    Ruling network block (block.accept network) := by
  by_cases ordinary : block.Ordinary
  · rw [accept_of_ordinary ordinary]
    exact .ordinary ordinary
  · cases enabled : network.mergedMining with
    | false =>
        rw [accept_of_disabled ordinary enabled]
        exact .disabled ordinary enabled
    | true =>
        rcases Nat.lt_or_ge block.header.time.toNat network.startTime.toNat with early | started
        · rw [accept_of_early ordinary enabled early]
          exact .notStarted ordinary enabled early
        · rw [accept_of_open ordinary ⟨enabled, started⟩]
          exact .verified ordinary ⟨enabled, started⟩ rfl

/-- Acceptance rules on every block, and in one way. -/
theorem accept_eq_iff {outcome : Except Rejection Unit} :
    block.accept network = outcome ↔ Ruling network block outcome := by
  constructor
  · intro ruled
    exact ruled ▸ accept_ruling network block
  · intro ruling
    cases ruling with
    | ordinary ordinary => exact accept_of_ordinary ordinary
    | disabled merged off => exact accept_of_disabled merged off
    | notStarted merged enabled early => exact accept_of_early merged enabled early
    | verified merged taken verified => exact (accept_of_open merged taken).trans verified

/-- A network takes the blocks without flag and evidence, and those it is open to and can verify. -/
theorem accept_eq_ok_iff :
    block.accept network = .ok () ↔
      block.Ordinary ∨ network.OpenAt block.header.time ∧ block.verify network = .ok () := by
  rw [accept_eq_iff]
  constructor
  · intro ruling
    cases ruling with
    | ordinary ordinary => exact .inl ordinary
    | verified _ taken verified => exact .inr ⟨taken, verified⟩
  · intro reason
    by_cases ordinary : block.Ordinary
    · exact .ordinary ordinary
    · obtain ⟨taken, verified⟩ := reason.resolve_left ordinary
      exact .verified ordinary taken verified

/-- A block is rejected by the gate it does not pass, or for what verification reports. -/
theorem accept_eq_error_iff :
    block.accept network = .error rejection ↔
      ¬ block.Ordinary ∧
        (network.mergedMining = false ∧ rejection = .disabled ∨
          network.mergedMining = true ∧ block.header.time.toNat < network.startTime.toNat ∧
            rejection = .notStarted block.header.time.toUInt64 network.startTime ∨
          network.OpenAt block.header.time ∧ block.verify network = .error rejection) := by
  rw [accept_eq_iff]
  constructor
  · intro ruling
    cases ruling with
    | disabled merged off => exact ⟨merged, .inl ⟨off, rfl⟩⟩
    | notStarted merged enabled early => exact ⟨merged, .inr (.inl ⟨enabled, early, rfl⟩)⟩
    | verified merged taken verified => exact ⟨merged, .inr (.inr ⟨taken, verified⟩)⟩
  · intro reason
    rcases reason with ⟨merged, ⟨off, rfl⟩ | ⟨enabled, early, rfl⟩ | ⟨taken, verified⟩⟩
    · exact .disabled merged off
    · exact .notStarted merged enabled early
    · exact .verified merged taken verified

/-- Absent evidence is reported for the flagged blocks that get as far as verification. -/
theorem accept_noEvidence_iff :
    block.accept network = .error .noEvidence ↔
      block.header.isAuxPow = true ∧ block.evidence = none ∧
        network.OpenAt block.header.time := by
  rw [accept_eq_iff]
  constructor
  · intro ruling
    cases ruling with
    | verified merged taken verified =>
        have bare := verify_noEvidence_iff.mp verified
        refine ⟨?_, bare, taken⟩
        rw [← Bool.not_eq_false]
        exact fun unflagged => merged ⟨unflagged, bare⟩
  · intro reason
    rcases reason with ⟨flag, bare, taken⟩
    have merged : ¬ block.Ordinary := by
      intro ordinary
      rw [ordinary.unflagged] at flag
      cases flag
    exact .verified merged taken (verify_of_absent bare)

/-- Malformed evidence is reported once the rules concern the block and both gates are open. -/
theorem accept_malformed_iff :
    (∃ reason, block.accept network = .error (.malformed reason)) ↔
      ¬ block.Ordinary ∧ network.OpenAt block.header.time ∧ block.isValid = false := by
  rw [← verify_malformed_iff network]
  constructor
  · intro refused
    rcases refused with ⟨reason, refused⟩
    cases accept_eq_iff.mp refused with
    | verified merged taken verified => exact ⟨merged, taken, reason, verified⟩
  · intro refused
    rcases refused with ⟨merged, taken, reason, verified⟩
    exact ⟨reason, accept_eq_iff.mpr (.verified merged taken verified)⟩

/-- The two gates and verification stand before every block that has a flag or evidence, whichever
of them it has, and it is rejected by the first that it does not pass. -/
theorem accept_admits_no_bypass (network : Network) (block : AuxBlock) :
    (block.accept network = .ok () ↔
      block.Ordinary ∨ network.OpenAt block.header.time ∧ block.verify network = .ok ()) ∧
    (∀ rejection, block.accept network = .error rejection ↔
      ¬ block.Ordinary ∧
        (network.mergedMining = false ∧ rejection = .disabled ∨
          network.mergedMining = true ∧ block.header.time.toNat < network.startTime.toNat ∧
            rejection = .notStarted block.header.time.toUInt64 network.startTime ∨
          network.OpenAt block.header.time ∧ block.verify network = .error rejection)) ∧
    (block.accept network = .error .noEvidence ↔
      block.header.isAuxPow = true ∧ block.evidence = none ∧
        network.OpenAt block.header.time) ∧
    ¬ (block.header.isAuxPow = true ∧ block.evidence = none ∧ block.accept network = .ok ()) := by
  refine ⟨accept_eq_ok_iff, fun _ => accept_eq_error_iff, accept_noEvidence_iff, ?_⟩
  intro taken
  rcases taken with ⟨flag, bare, passed⟩
  rcases accept_eq_ok_iff.mp passed with ordinary | ⟨_, verified⟩
  · rw [ordinary.unflagged] at flag
    cases flag
  · rw [verify_of_absent bare] at verified
    cases verified

end AuxBlock

end MergedMining
