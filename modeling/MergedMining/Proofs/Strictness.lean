/-
Module: MergedMining.Proofs.Strictness
Purpose: A network with stricter rules takes fewer blocks and finds no other fault in any of them.
Trusted boundary: none
Main exports: Network.AtLeastAsStrict, Network.Tightening, Rejection.ByGate,
  AuxBlock.verify_eq_error_of_stricter, AuxBlock.accept_eq_ok_of_stricter,
  AuxBlock.accept_eq_error_of_stricter, AuxBlock.stricter_rules_only_reject_more
-/
import MergedMining.Proofs.Feasibility

/-!
Two networks of one chain may differ in their gates and in the demand for a marker.  Every objection
on the lenient network is one on the strict network, and the strict one adds objections at the last
stage only: so the first objection stays the first.  The gates come before all of that, and can only
hide it.

The algorithm is not looked at: it says by which hash a parent block is known, not whether a block
is taken.
-/

namespace MergedMining

namespace Network

/-- Both networks are of one chain, and no rule of the first is looser than that of the second. -/
structure AtLeastAsStrict (strict lenient : Network) : Prop where
  sameChain : strict.chainId = lenient.chainId
  enabled : strict.mergedMining = true → lenient.mergedMining = true
  notEarlier : lenient.startTime ≤ strict.startTime
  demanded : lenient.markerRequired = true → strict.markerRequired = true

/-- The changes that can only make the rules of a network stricter. -/
inductive Tightening (network : Network) : Network → Prop where
  | disabling : Tightening network network.withoutMergedMining
  | demanding : Tightening network network.requiringMarker
  | postponing {time : UInt64} (later : network.startTime ≤ time) :
      Tightening network (network.startingAt time)

variable {network changed strict lenient : Network}

/-- Each of the three tightenings makes a network stricter, or leaves it as strict. -/
theorem Tightening.atLeastAsStrict (tightening : Tightening network changed) :
    changed.AtLeastAsStrict network := by
  cases tightening with
  | disabling => exact ⟨rfl, (nomatch ·), UInt64.le_refl _, id⟩
  | demanding => exact ⟨rfl, id, UInt64.le_refl _, fun _ => rfl⟩
  | postponing later => exact ⟨rfl, id, later, id⟩

/-- Where the strict network takes blocks, the lenient one does. -/
theorem OpenAt.of_stricter {time : UInt32} (tighter : strict.AtLeastAsStrict lenient)
    (taken : strict.OpenAt time) : lenient.OpenAt time where
  enabled := tighter.enabled taken.enabled
  started := Nat.le_trans (UInt64.le_iff_toNat_le.mp tighter.notEarlier) taken.started

end Network

/-- The rejections by the activation rules, which come before any verification. -/
inductive Rejection.ByGate : Rejection → Prop where
  | disabled : ByGate .disabled
  | notStarted {time start : UInt64} : ByGate (.notStarted time start)

namespace AuxBlock

variable {network strict lenient : Network} {block : AuxBlock} {rejection : Rejection}

/-! ## Verification -/

/-- What speaks against a block before the last stage depends on the chain of the network only. -/
theorem Objection.of_sameChain {stage : Nat} (same : strict.chainId = lenient.chainId)
    (early : stage < 6) (objection : Objection strict block stage rejection) :
    Objection lenient block stage rejection := by
  cases objection with
  | noEvidence absent => exact .noEvidence absent
  | illFormed present ill => exact .illFormed present ill
  | foreign other => rw [same] at other ⊢; exact .foreign other
  | shared present own => rw [same] at own ⊢; exact .shared present own
  | repeated present searched again => exact .repeated present searched again
  | spending present searched least real => exact .spending present searched least real
  | unmarked => exact absurd early (Nat.lt_irrefl 6)

/-- What speaks against a block on the lenient network does so on the strict one. -/
theorem Objection.of_stricter {stage : Nat} (tighter : strict.AtLeastAsStrict lenient)
    (objection : Objection lenient block stage rejection) :
    Objection strict block stage rejection := by
  by_cases early : stage < 6
  · exact objection.of_sameChain tighter.sameChain.symm early
  · cases objection with
    | unmarked present searched absent required =>
        exact .unmarked present searched absent (tighter.demanded required)
    | _ => exact absurd (by decide) early

/-- What a stricter network verifies, a more lenient one does. -/
theorem verify_eq_ok_of_stricter (tighter : strict.AtLeastAsStrict lenient)
    (passed : block.verify strict = .ok ()) : block.verify lenient = .ok () := by
  rw [verify_eq_ok_iff] at passed ⊢
  intro stage rejection objection
  exact passed stage rejection (objection.of_stricter tighter)

/-- The strict network reports what the lenient one reports. -/
theorem verify_eq_error_of_stricter (tighter : strict.AtLeastAsStrict lenient)
    (refused : block.verify lenient = .error rejection) :
    block.verify strict = .error rejection := by
  obtain ⟨stage, objection, clear⟩ := verify_eq_error_iff.mp refused
  refine verify_eq_error_iff.mpr ⟨stage, objection.of_stricter tighter, ?_⟩
  intro earlier before other found
  have early : earlier < 6 := Nat.lt_of_lt_of_le before objection.stage_le_six
  exact clear earlier before other (found.of_sameChain tighter.sameChain early)

/-! ## Acceptance -/

/-- What a stricter network takes, a more lenient one does. -/
theorem accept_eq_ok_of_stricter (tighter : strict.AtLeastAsStrict lenient)
    (passed : block.accept strict = .ok ()) : block.accept lenient = .ok () := by
  rw [accept_eq_ok_iff] at passed ⊢
  rcases passed with ordinary | ⟨taken, verified⟩
  · exact .inl ordinary
  · exact .inr ⟨taken.of_stricter tighter, verify_eq_ok_of_stricter tighter verified⟩

/-- Where a network does not take merge-mined blocks, one of its gates says so. -/
theorem accept_of_closed (merged : ¬ block.Ordinary)
    (closed : ¬ network.OpenAt block.header.time) :
    block.accept network = .error .disabled ∨
      block.accept network =
        .error (.notStarted block.header.time.toUInt64 network.startTime) := by
  have ruling := accept_ruling network block
  generalize block.accept network = outcome at ruling ⊢
  cases ruling with
  | ordinary ordinary => exact absurd ordinary merged
  | disabled => exact .inl rfl
  | notStarted => exact .inr rfl
  | verified _ taken => exact absurd taken closed

/-- A rejection stays, unless a gate of the strict network comes before it. -/
theorem accept_eq_error_of_stricter (tighter : strict.AtLeastAsStrict lenient)
    (refused : block.accept lenient = .error rejection) :
    block.accept strict = .error rejection ∨ block.accept strict = .error .disabled ∨
      block.accept strict =
        .error (.notStarted block.header.time.toUInt64 strict.startTime) := by
  have merged : ¬ block.Ordinary := (accept_eq_error_iff.mp refused).1
  by_cases taken : strict.OpenAt block.header.time
  · rw [accept_of_open merged (taken.of_stricter tighter)] at refused
    rw [accept_of_open merged taken]
    exact .inl (verify_eq_error_of_stricter tighter refused)
  · exact .inr (accept_of_closed merged taken)

/-- Verification does not know the gates. -/
theorem not_byGate_of_verify (refused : block.verify network = .error rejection) :
    ¬ rejection.ByGate := by
  obtain ⟨_, objection, _⟩ := verify_eq_error_iff.mp refused
  intro gate
  cases gate with
  | disabled => cases objection
  | notStarted => cases objection

/-- What verification finds under the stricter rules was what was said before, and is not put in the
place of something else. -/
theorem eq_of_verified_under_stricter {found : Rejection}
    (tighter : strict.AtLeastAsStrict lenient)
    (before : block.accept lenient = .error rejection)
    (after : block.accept strict = .error found) (verified : block.verify strict = .error found) :
    found = rejection := by
  have notGate := not_byGate_of_verify verified
  rcases accept_eq_error_of_stricter tighter before with same | disabled | notStarted
  · cases after.symm.trans same
    rfl
  · cases after.symm.trans disabled
    exact absurd .disabled notGate
  · cases after.symm.trans notStarted
    exact absurd .notStarted notGate

/-- Stricter rules of the same chain take no block that the lenient rules reject, and they reject
what these reject for the same reason or by a gate.  So no change that tightens the rules lets a
rejected block in or has verification find another fault in it; the algorithm changes nothing at
all. -/
theorem stricter_rules_only_reject_more :
    (∀ (strict lenient : Network) (block : AuxBlock), strict.AtLeastAsStrict lenient →
      (block.accept strict = .ok () → block.accept lenient = .ok ()) ∧
      ∀ rejection, block.accept lenient = .error rejection →
        block.accept strict = .error rejection ∨ block.accept strict = .error .disabled ∨
          block.accept strict =
            .error (.notStarted block.header.time.toUInt64 strict.startTime)) ∧
    (∀ (network changed : Network) (block : AuxBlock), network.Tightening changed →
      ∀ rejection, block.accept network = .error rejection →
        block.accept changed ≠ .ok () ∧
        ∀ found, block.accept changed = .error found → block.verify changed = .error found →
          found = rejection) ∧
    ∀ (network : Network) (algorithm : PowAlgorithm) (block : AuxBlock),
      block.accept { network with algorithm } = block.accept network ∧
        block.verify { network with algorithm } = block.verify network := by
  refine ⟨?ordered, ?tightened, fun _ _ _ => ⟨rfl, rfl⟩⟩
  case ordered =>
    intro strict lenient block tighter
    exact ⟨accept_eq_ok_of_stricter tighter, fun _ => accept_eq_error_of_stricter tighter⟩
  case tightened =>
    intro network changed block tightening rejection refused
    have tighter := tightening.atLeastAsStrict
    refine ⟨?_, fun _ after verified =>
      eq_of_verified_under_stricter tighter refused after verified⟩
    intro passed
    rw [accept_eq_ok_of_stricter tighter passed] at refused
    cases refused

/-- A plain block whose coinbase lacks the marker. -/
def unmarked (chainId base : UInt32) : AuxBlock where
  header := (plain chainId base).header
  evidence := some { plainEvidence chainId with coinbase := ⟨1, [⟨.null, [1, 2, 3], 0⟩], [], 0⟩ }

/-- What a network takes that demands the marker from a time on is taken without the two rules.  A
flagged block without evidence is taken by neither; on the stricter one it also comes too early.  A
block without the marker is taken until the marker is demanded, and not under a later start time
either. -/
theorem stricter_rules_only_reject_more_of_late_start :
    (plain 98 2).accept ((Network.of 98 .scrypt).startingAt 1000).requiringMarker = .ok () ∧
    (plain 98 2).accept (Network.of 98 .sha256d) = .ok () ∧
    (⟨{ (plain 98 2).header with time := 500 }, none⟩ : AuxBlock).accept (Network.of 98 .sha256d) =
      .error .noEvidence ∧
    (⟨{ (plain 98 2).header with time := 500 }, none⟩ : AuxBlock).accept
      ((Network.of 98 .scrypt).startingAt 1000).requiringMarker ≠ .ok () ∧
    (unmarked 98 2).accept (Network.of 98 .sha256d) = .ok () ∧
    (unmarked 98 2).accept (Network.of 98 .sha256d).requiringMarker = .error .missingMarker ∧
    (unmarked 98 2).accept ((Network.of 98 .sha256d).requiringMarker.startingAt 1000) ≠ .ok () ∧
    (unmarked 98 2).accept ((Network.of 98 .scrypt).startingAt 1000).requiringMarker ≠ .ok () := by
  have tighter : ((Network.of 98 .scrypt).startingAt 1000).requiringMarker.AtLeastAsStrict
      (Network.of 98 .sha256d) := ⟨rfl, id, by decide, fun _ => rfl⟩
  have passed : (plain 98 2).accept ((Network.of 98 .scrypt).startingAt 1000).requiringMarker =
      .ok () := by decide
  have refused : (⟨{ (plain 98 2).header with time := 500 }, none⟩ : AuxBlock).accept
      (Network.of 98 .sha256d) = .error .noEvidence := by decide
  have demanding : ((Network.of 98 .scrypt).startingAt 1000).requiringMarker.AtLeastAsStrict
      (Network.of 98 .sha256d).requiringMarker := ⟨rfl, id, by decide, id⟩
  have later : (Network.of 98 .sha256d).requiringMarker.Tightening
      ((Network.of 98 .sha256d).requiringMarker.startingAt 1000) := .postponing (by decide)
  have missing : (unmarked 98 2).accept (Network.of 98 .sha256d).requiringMarker =
      .error .missingMarker := by decide
  obtain ⟨ordered, tightened, -⟩ := stricter_rules_only_reject_more
  refine ⟨passed, (ordered _ _ _ tighter).1 passed, refused, ?early, by decide, missing,
    (tightened _ _ _ later _ missing).1, ?demanded⟩
  case early =>
    -- whichever of the three verdicts it is, the block is not taken
    rcases (ordered _ _ _ tighter).2 _ refused with kept | off | early
    · rw [kept]
      decide
    · rw [off]
      decide
    · rw [early]
      decide
  case demanded =>
    intro taken
    have before := (ordered _ _ _ demanding).1 taken
    rw [missing] at before
    cases before

end AuxBlock

end MergedMining
