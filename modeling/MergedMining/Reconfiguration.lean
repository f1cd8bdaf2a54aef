/-
Module: MergedMining.Reconfiguration
Purpose: Successive changes of a network's rules, among them writing them out and reading them
  again.
Trusted boundary: none
Main exports: Network.Change, Network.change, Network.changes
-/
import MergedMining.Document

namespace MergedMining.Network

/-- A change of a network's rules. -/
inductive Change where
  /-- Merge-mined blocks are taken from a time on. -/
  | startAt (time : UInt64)
  /-- Merge-mined blocks are not taken. -/
  | disable
  /-- The marker must be there. -/
  | requireMarker
  /-- The rules are replaced by what their own description says. -/
  | reload
deriving Repr, DecidableEq

variable (complaint : String → String)

/-- The rules after a change. -/
def change (network : Network) : Change → Except Rejection Network
  | .startAt time => .ok (network.startingAt time)
  | .disable => .ok network.withoutMergedMining
  | .requireMarker => .ok network.requiringMarker
  | .reload => ofDocument complaint network.document

/-- The rules after all of the changes, in their order, if none of them fails. -/
def changes (network : Network) (steps : List Change) : Except Rejection Network :=
  steps.foldlM (change complaint) network

end MergedMining.Network
