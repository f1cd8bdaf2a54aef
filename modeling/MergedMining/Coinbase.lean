/-
Module: MergedMining.Coinbase
Purpose: The marker in a parent's coinbase script, and when a coinbase input is well marked.
Trusted boundary: none
Main exports: Coinbase.marker, Coinbase.MarkerAt, Coinbase.firstMarker?, Coinbase.markerAfter?,
  Coinbase.check
-/
import MergedMining.Rejection
import MergedMining.Transaction

/-!
The parent's coinbase commits to the child chain right after a marker of four bytes.  The marker
should be there once, in an input that creates coins.  A second marker is looked for only if the
first stands in the front half of the script, its exact middle included.
-/

namespace MergedMining.Coinbase

/-- What stands before the commitment to the child chain. -/
def marker : Bytes := [0xfa, 0xbe, 0x6d, 0x6d]

/-- The marker stands in the script at an offset. -/
def MarkerAt (script : Bytes) (offset : Nat) : Prop := marker <+: script.drop offset

instance (script : Bytes) (offset : Nat) : Decidable (MarkerAt script offset) :=
  inferInstanceAs (Decidable (marker <+: script.drop offset))

/-- The least offset of the marker, the offsets of the given bytes counted from `offset`. -/
def firstMarkerFrom (offset : Nat) : Bytes → Option Nat
  | [] => none
  | byte :: rest =>
      if marker.isPrefixOf (byte :: rest) then some offset else firstMarkerFrom (offset + 1) rest

/-- The least offset of the marker. -/
def firstMarker? (script : Bytes) : Option Nat := firstMarkerFrom 0 script

/-- The least offset of the marker past a given offset. -/
def markerAfter? (script : Bytes) (offset : Nat) : Option Nat :=
  firstMarkerFrom (offset + 1) (script.drop (offset + 1))

/-- The offset of the marker in a coinbase input, if there is one, unless the input is badly
marked. -/
def check (input : TxInput) : Except Rejection (Option Nat) :=
  match firstMarker? input.script with
  | none => .ok none
  | some first =>
      let second? :=
        if first ≤ input.script.length - first then markerAfter? input.script first else none
      match second? with
      | some second => .error (.duplicateMarker first second)
      | none => if input.isCoinbase then .ok (some first) else .error (.parentNotCoinbase first)

end MergedMining.Coinbase
