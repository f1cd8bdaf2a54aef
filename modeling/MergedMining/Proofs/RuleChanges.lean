/-
Module: MergedMining.Proofs.RuleChanges
Purpose: A network's rules after any changes, among which describing and reading them changes
  nothing.
Trusted boundary: none
Main exports: Network.ofDocument_document, Network.after, Network.changes_eq_ok, Network.Outcome,
  Network.outcome_foldl, Network.changes_keep_to_rules
-/
import MergedMining.Proofs.DocumentRoundTrip
import MergedMining.Reconfiguration

/-!
The description of a network is read as that network, whatever its rules are.  So a reload never
fails and never changes anything, and a run of changes comes to what its last start time is and to
which of the other changes occur in it.
-/

namespace MergedMining

open Json

instance : LawfulForm Network where
  ofJson?_toJson network := by
    apply bind_fields?_record Network.fields
      [toJson network.chainId, toJson network.mergedMining, toJson network.startTime,
       toJson network.algorithm, toJson network.markerRequired]
    · decide
    · rfl
    · simp

namespace Network

variable (complaint : String → String)

/-- Every network is read from its description. -/
theorem ofDocument_document (network : Network) :
    ofDocument complaint network.document = .ok network := by
  have read : (JsonForm.ofText? network.document : Option Network) = some network := by
    rw [JsonForm.ofText?, document, parse?_pretty, Option.bind_some, LawfulForm.ofJson?_toJson]
  rw [ofDocument, read]

/-! ## One change -/

/-- The start time that a change sets. -/
def Change.time? : Change → Option UInt64
  | .startAt time => some time
  | _ => none

/-- The rules after a change, if describing them and reading them again comes to nothing. -/
def after (network : Network) : Change → Network
  | .startAt time => network.startingAt time
  | .disable => network.withoutMergedMining
  | .requireMarker => network.requiringMarker
  | .reload => network

/-- A reload gives the rules back. -/
theorem change_reload (network : Network) : network.change complaint .reload = .ok network :=
  network.ofDocument_document complaint

/-- No change fails. -/
theorem change_eq_ok (network : Network) (step : Change) :
    network.change complaint step = .ok (network.after step) := by
  cases step with
  | reload => exact network.change_reload complaint
  | _ => rfl

/-! ## Runs of changes -/

/-- A run goes on from the rules after its first change. -/
theorem changes_cons (network : Network) (step : Change) (steps : List Change) :
    network.changes complaint (step :: steps) = (network.after step).changes complaint steps := by
  rw [changes, List.foldlM_cons, change_eq_ok]
  rfl

/-- No change fails, so a run of changes does not. -/
theorem changes_eq_ok (network : Network) (steps : List Change) :
    network.changes complaint steps = .ok (steps.foldl after network) := by
  induction steps generalizing network with
  | nil => rfl
  | cons step steps ih => rw [changes_cons, ih, List.foldl_cons]

/-- What becomes of the rules in a run of changes. -/
structure Outcome (network : Network) (steps : List Change) (final : Network) : Prop where
  chainId : final.chainId = network.chainId
  algorithm : final.algorithm = network.algorithm
  startTime : final.startTime = (steps.filterMap Change.time?).getLast?.getD network.startTime
  enabled : final.mergedMining = true ↔ network.mergedMining = true ∧ .disable ∉ steps
  demanded : final.markerRequired = true ↔
    network.markerRequired = true ∨ .requireMarker ∈ steps

variable {network final : Network} {steps : List Change}

/-- Without changes everything stays. -/
theorem Outcome.nil : Outcome network [] network := by
  constructor <;> simp

/-- A change in front of a run is undone or kept by it, as the rule is one of the last change or one
of whether there was any. -/
theorem Outcome.cons {step : Change} (outcome : Outcome (network.after step) steps final) :
    Outcome network (step :: steps) final := by
  rcases outcome with ⟨chainId, algorithm, startTime, enabled, demanded⟩
  cases step with
  | startAt time =>
      have times : (Change.startAt time :: steps).filterMap Change.time? =
          time :: steps.filterMap Change.time? := rfl
      refine ⟨chainId, algorithm, ?_, ?_, ?_⟩
      · rw [startTime, times, List.getLast?_cons]
        rfl
      · simpa [after, startingAt] using enabled
      · simpa [after, startingAt] using demanded
  | disable =>
      refine ⟨chainId, algorithm, startTime, ?_, ?_⟩
      · simpa [after, withoutMergedMining] using enabled
      · simpa [after, withoutMergedMining] using demanded
  | requireMarker =>
      refine ⟨chainId, algorithm, startTime, ?_, ?_⟩
      · simpa [after, requiringMarker] using enabled
      · simpa [after, requiringMarker] using demanded
  | reload =>
      refine ⟨chainId, algorithm, startTime, ?_, ?_⟩
      · simpa [after] using enabled
      · simpa [after] using demanded

/-- The rules after a run are its outcome, by induction on the run. -/
theorem outcome_foldl (network : Network) (steps : List Change) :
    Outcome network steps (steps.foldl after network) := by
  induction steps generalizing network with
  | nil => exact .nil
  | cons step steps ih => exact (ih (network.after step)).cons

/-- Reloads leave no trace in a run. -/
theorem changes_without_reloads (network : Network) (steps : List Change) :
    network.changes complaint (steps.filter (· ≠ .reload)) = network.changes complaint steps := by
  induction steps generalizing network with
  | nil => rfl
  | cons step steps ih =>
      rw [changes_cons]
      cases step with
      | reload => exact ih network
      | _ => exact (changes_cons complaint network _ _).trans (ih _)

/-- Every reload in a run of changes from a new network succeeds and gives the rules back that it
was given, so the run could do without it.  In the end the chain and the algorithm are those of the
beginning, the start time is the last one that was set, merged mining is enabled unless it was
disabled once, and the marker is demanded if it was once. -/
theorem changes_keep_to_rules (chainId : UInt32) (algorithm : PowAlgorithm)
    (steps : List Change) :
    (∀ network : Network, ofDocument complaint network.document = .ok network) ∧
    (∀ before rest : List Change, steps = before ++ .reload :: rest → ∃ network,
      (Network.of chainId algorithm).changes complaint before = .ok network ∧
        network.change complaint .reload = .ok network) ∧
    (Network.of chainId algorithm).changes complaint (steps.filter (· ≠ .reload)) =
      (Network.of chainId algorithm).changes complaint steps ∧
    ∃ final, (Network.of chainId algorithm).changes complaint steps = .ok final ∧
      final.chainId = chainId ∧ final.algorithm = algorithm ∧
      final.startTime = (steps.filterMap Change.time?).getLast?.getD 0 ∧
      (final.mergedMining = true ↔ .disable ∉ steps) ∧
      (final.markerRequired = true ↔ .requireMarker ∈ steps) := by
  refine ⟨ofDocument_document complaint, ?reloads, changes_without_reloads _ _ _, _,
    changes_eq_ok _ _ _, ?rules⟩
  case reloads =>
    intro before rest _
    exact ⟨_, changes_eq_ok _ _ before, change_reload _ _⟩
  case rules =>
    obtain ⟨sameChain, sameAlgorithm, startTime, enabled, demanded⟩ :=
      outcome_foldl (Network.of chainId algorithm) steps
    refine ⟨sameChain, sameAlgorithm, startTime, ?_, ?_⟩
    · simpa [Network.of] using enabled
    · simpa [Network.of] using demanded

/-- A network that sets its start time twice, demands the marker, is reloaded and disabled. -/
theorem changes_keep_to_rules_of_reload :
    (∃ network, (Network.of 98 .scrypt).changes id [.startAt 7, .requireMarker, .startAt 9] =
        .ok network ∧
      network.change id .reload = .ok network) ∧
    ∃ final, (Network.of 98 .scrypt).changes id
        [.startAt 7, .requireMarker, .startAt 9, .reload, .disable] = .ok final ∧
      final.startTime = 9 ∧ final.mergedMining ≠ true ∧ final.markerRequired = true := by
  obtain ⟨-, reloads, -, final, reached, -, -, startTime, enabled, demanded⟩ :=
    changes_keep_to_rules id 98 .scrypt [.startAt 7, .requireMarker, .startAt 9, .reload, .disable]
  refine ⟨reloads [.startAt 7, .requireMarker, .startAt 9] [.disable] rfl, final, reached,
    startTime, ?_, demanded.mpr (by decide)⟩
  rw [ne_eq, enabled]
  decide

end Network

end MergedMining
