/-
Module: MergedMining.Proofs.MarkerScan
Purpose: The scan of a coinbase script finds the first marker, and the second one where it looks.
Trusted boundary: none
Main exports: Coinbase.markers, Coinbase.Repeated, Coinbase.Judged,
  Coinbase.firstMarker?_eq_some_iff, Coinbase.markerAfter?_eq_some_iff, Coinbase.check_judged
-/
import Mathlib.Order.Bounds.Basic
import Mathlib.Order.Nat
import MergedMining.Coinbase

/-!
The scan walks over the script and reports an offset; here the offset is characterised by the set of
all offsets at which the marker stands.  The first marker is the least element of that set, and a
second marker is the least element past the first.
-/

namespace MergedMining.Coinbase

/-- The offsets at which the marker stands in a script. -/
def markers (script : Bytes) : Set Nat := { offset | MarkerAt script offset }

/-- The marker stands at a first and at a next offset, and what begins with the first is at least as
long as what stands before it. -/
structure Repeated (script : Bytes) (first second : Nat) : Prop where
  least : IsLeast (markers script) first
  next : IsLeast (markers script ∩ Set.Ioi first) second
  reached : first ≤ script.length - first

/-- What is said of a coinbase input, by the offsets of the marker in its script. -/
inductive Judged (input : TxInput) : Except Rejection (Option Nat) → Prop where
  | unmarked (absent : markers input.script = ∅) : Judged input (.ok none)
  | repeated {first second : Nat} (again : Repeated input.script first second) :
      Judged input (.error (.duplicateMarker first second))
  | spending {first : Nat} (least : IsLeast (markers input.script) first)
      (once : ∀ other second, ¬ Repeated input.script other second)
      (real : input.outPoint ≠ .null) :
      Judged input (.error (.parentNotCoinbase first))
  | marked {first : Nat} (least : IsLeast (markers input.script) first)
      (once : ∀ other second, ¬ Repeated input.script other second)
      (created : input.outPoint = .null) :
      Judged input (.ok (some first))

/-- Without a marker there is none that is repeated. -/
theorem not_repeated_of_empty {script : Bytes} (absent : markers script = ∅) (first second : Nat) :
    ¬ Repeated script first second := by
  intro again
  exact absurd (absent ▸ again.least.1) (Set.notMem_empty first)

theorem markers_nil : markers [] = ∅ := by
  apply Set.eq_empty_of_forall_notMem
  intro offset stands
  simp [markers, MarkerAt, marker] at stands

theorem zero_mem_markers_iff {script : Bytes} : 0 ∈ markers script ↔ marker <+: script := Iff.rfl

/-- Behind the first byte the marker stands where it stands in the rest. -/
theorem succ_mem_markers_iff {byte : UInt8} {rest : Bytes} {offset : Nat} :
    offset + 1 ∈ markers (byte :: rest) ↔ offset ∈ markers rest := Iff.rfl

/-- Where the marker does not stand at the very beginning, the first byte only moves its offsets. -/
theorem isLeast_markers_cons_iff {byte : UInt8} {rest : Bytes} {first : Nat}
    (elsewhere : ¬ marker <+: byte :: rest) :
    IsLeast (markers (byte :: rest)) first ↔
      ∃ offset, first = offset + 1 ∧ IsLeast (markers rest) offset := by
  constructor
  · intro least
    cases first with
    | zero => exact absurd (zero_mem_markers_iff.mp least.1) elsewhere
    | succ offset =>
        refine ⟨offset, rfl, succ_mem_markers_iff.mp least.1, ?_⟩
        intro other stands
        exact Nat.le_of_succ_le_succ (least.2 (succ_mem_markers_iff.mpr stands))
  · intro moved
    rcases moved with ⟨offset, rfl, least⟩
    refine ⟨succ_mem_markers_iff.mpr least.1, ?_⟩
    intro other stands
    cases other with
    | zero => exact absurd (zero_mem_markers_iff.mp stands) elsewhere
    | succ other => exact Nat.succ_le_succ (least.2 (succ_mem_markers_iff.mp stands))

/-- The scan of a stretch of a script meets the least marker of the stretch. -/
theorem firstMarkerFrom_eq_some_iff {bytes : Bytes} {base found : Nat} :
    firstMarkerFrom base bytes = some found ↔
      ∃ offset, found = base + offset ∧ IsLeast (markers bytes) offset := by
  induction bytes generalizing base with
  | nil => simp [firstMarkerFrom, markers_nil, IsLeast]
  | cons byte rest ih =>
      by_cases here : marker <+: byte :: rest
      · have least : IsLeast (markers (byte :: rest)) 0 :=
          ⟨zero_mem_markers_iff.mpr here, fun offset _ => Nat.zero_le offset⟩
        rw [firstMarkerFrom, if_pos (List.isPrefixOf_iff_prefix.mpr here)]
        constructor
        · intro same
          exact ⟨0, (Option.some.inj same).symm, least⟩
        · intro stands
          rcases stands with ⟨offset, rfl, other⟩
          rw [other.unique least, Nat.add_zero]
      · have passed : ¬ marker.isPrefixOf (byte :: rest) = true := by
          rwa [List.isPrefixOf_iff_prefix]
        rw [firstMarkerFrom, if_neg passed, ih]
        constructor
        · intro later
          rcases later with ⟨offset, rfl, least⟩
          refine ⟨offset + 1, ?_, (isLeast_markers_cons_iff here).mpr ⟨offset, rfl, least⟩⟩
          rw [Nat.add_assoc, Nat.add_comm 1]
        · intro stands
          rcases stands with ⟨_, rfl, moved⟩
          obtain ⟨offset, rfl, least⟩ := (isLeast_markers_cons_iff here).mp moved
          exact ⟨offset, by rw [Nat.add_assoc, Nat.add_comm 1], least⟩

/-- The scan of a script meets the least of its markers. -/
theorem firstMarker?_eq_some_iff {script : Bytes} {first : Nat} :
    firstMarker? script = some first ↔ IsLeast (markers script) first := by
  simp [firstMarker?, firstMarkerFrom_eq_some_iff]

/-- The offsets past a place are those of the rest of the script, counted from there. -/
theorem add_mem_markers_iff {script : Bytes} {base offset : Nat} :
    base + offset ∈ markers script ↔ offset ∈ markers (script.drop base) := by
  simp [markers, MarkerAt, List.drop_drop]

/-- The scan behind a marker meets the least of those past it. -/
theorem markerAfter?_eq_some_iff {script : Bytes} {first second : Nat} :
    markerAfter? script first = some second ↔
      IsLeast (markers script ∩ Set.Ioi first) second := by
  rw [markerAfter?, firstMarkerFrom_eq_some_iff]
  constructor
  · intro scanned
    rcases scanned with ⟨offset, rfl, least⟩
    refine ⟨⟨add_mem_markers_iff.mpr least.1, ?_⟩, ?_⟩
    · exact Nat.lt_of_lt_of_le (Nat.lt_succ_self first) (Nat.le_add_right _ offset)
    · intro other stands
      obtain ⟨further, rfl⟩ := Nat.exists_eq_add_of_le (Nat.succ_le_of_lt stands.2)
      exact Nat.add_le_add_left (least.2 (add_mem_markers_iff.mp stands.1)) _
  · intro least
    obtain ⟨offset, rfl⟩ := Nat.exists_eq_add_of_le (Nat.succ_le_of_lt least.1.2)
    refine ⟨offset, rfl, add_mem_markers_iff.mp least.1.1, ?_⟩
    intro other stands
    have past : first < first + 1 + other :=
      Nat.lt_of_lt_of_le (Nat.lt_succ_self first) (Nat.le_add_right _ other)
    exact Nat.le_of_add_le_add_left (least.2 ⟨add_mem_markers_iff.mpr stands, past⟩)

/-- A set of offsets has a least element or is empty. -/
theorem eq_empty_of_no_least {offsets : Set Nat} (noLeast : ∀ offset, ¬ IsLeast offsets offset) :
    offsets = ∅ := by
  classical
  apply Set.eq_empty_of_forall_notMem
  intro offset stands
  exact noLeast _ (Nat.isLeast_find ⟨offset, stands⟩)

/-- A script in which the scan meets no marker has none. -/
theorem markers_eq_empty {script : Bytes} (unfound : firstMarker? script = none) :
    markers script = ∅ := by
  apply eq_empty_of_no_least
  intro offset least
  rw [firstMarker?_eq_some_iff.mpr least] at unfound
  cases unfound

theorem isCoinbase_iff {input : TxInput} : input.isCoinbase = true ↔ input.outPoint = .null := by
  simp [TxInput.isCoinbase]

/-- The second marker that the check looks for is the one that makes the first a repeated one. -/
theorem second_eq_some_iff {script : Bytes} {first second : Nat}
    (least : IsLeast (markers script) first) :
    (if first ≤ script.length - first then markerAfter? script first else none) = some second ↔
      Repeated script first second := by
  constructor
  · intro found
    by_cases reached : first ≤ script.length - first
    · rw [if_pos reached, markerAfter?_eq_some_iff] at found
      exact ⟨least, found, reached⟩
    · rw [if_neg reached] at found
      cases found
  · intro again
    rw [if_pos again.reached, markerAfter?_eq_some_iff]
    exact again.next

/-- The check says of an input what its markers and its outpoint give reason for. -/
theorem check_judged (input : TxInput) : Judged input (check input) := by
  unfold check
  cases scan : firstMarker? input.script with
  | none =>
      exact .unmarked (markers_eq_empty scan)
  | some first =>
      have least : IsLeast (markers input.script) first := firstMarker?_eq_some_iff.mp scan
      cases rescan : (if first ≤ input.script.length - first
          then markerAfter? input.script first else none) with
      | some second =>
          simp only [rescan]
          exact .repeated ((second_eq_some_iff least).mp rescan)
      | none =>
          have once : ∀ other second, ¬ Repeated input.script other second := by
            intro other second again
            -- only the least marker can be repeated, and this one is not
            cases again.least.unique least
            rw [(second_eq_some_iff least).mpr again] at rescan
            cases rescan
          simp only [rescan]
          by_cases created : input.outPoint = .null
          · rw [if_pos (isCoinbase_iff.mpr created)]
            exact .marked least once created
          · rw [if_neg (fun yes => created (isCoinbase_iff.mp yes))]
            exact .spending least once created

-- Behind eight bytes the second of two adjacent markers is seen, behind nine it is not.
example : check ⟨.null, List.replicate 8 0 ++ marker ++ marker, 0⟩ =
    .error (.duplicateMarker 8 12) := by decide

example : check ⟨.null, List.replicate 9 0 ++ marker ++ marker, 0⟩ = .ok (some 9) := by decide

end MergedMining.Coinbase
