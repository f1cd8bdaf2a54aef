/-
Module: MergedMining.Proofs.MarkerLayout
Purpose: The verdict on a coinbase script, by the stretches around the markers in it.
Trusted boundary: none
Main exports: Coinbase.MarkerFree, Coinbase.apart_of_mem_markers, Coinbase.mem_markers_append_iff,
  Coinbase.Layout, Coinbase.Surveyed, Coinbase.check_surveyed
-/
import MergedMining.Proofs.MarkerScan

/-!
A script has no marker, or one, or goes on behind a second one.  The first byte of the marker is
none of its other bytes, so two markers share no byte, and a stretch without markers has none that
leans into the marker behind it or out of the one before it.  Hence the markers are where the
stretches end, and the second of them is seen if no more stands before the first than from it on.
-/

namespace MergedMining.Coinbase

/-- The marker occurs nowhere in the bytes. -/
def MarkerFree (bytes : Bytes) : Prop := ¬ marker <:+: bytes

theorem length_marker : marker.length = 4 := rfl

variable {script front between back : Bytes} {offset other first second : Nat} {input : TxInput}

theorem length_mem_markers : front.length ∈ markers (front ++ marker ++ back) := by
  show marker <+: (front ++ marker ++ back).drop front.length
  rw [List.append_assoc, List.drop_left]
  exact List.prefix_append marker back

/-- The marker occurs nowhere if it stands at no offset. -/
theorem markerFree_iff : MarkerFree script ↔ markers script = ∅ := by
  rw [Set.eq_empty_iff_forall_notMem, MarkerFree, ← not_exists, not_iff_not]
  constructor
  · intro occurs
    rcases occurs with ⟨front, back, rfl⟩
    exact ⟨front.length, length_mem_markers⟩
  · intro stands
    rcases stands with ⟨offset, stands⟩
    exact List.IsInfix.trans (List.IsPrefix.isInfix stands) (List.drop_suffix offset script).isInfix

/-- There is room for the marker where it stands. -/
theorem add_four_le_of_mem_markers (stands : offset ∈ markers script) :
    offset + 4 ≤ script.length := by
  have room : marker.length ≤ (script.drop offset).length := List.IsPrefix.length_le stands
  rw [List.length_drop, length_marker] at room
  omega

/-- The bytes from a marker's offset on are those of the marker, each in its place. -/
theorem getElem?_of_mem_markers (stands : offset ∈ markers script) {place : Nat}
    (inside : place < marker.length) : script[offset + place]? = some marker[place] := by
  rw [← List.getElem?_drop]
  exact List.prefix_iff_getElem?.mp stands place inside

/-- Two markers share no byte. -/
theorem apart_of_mem_markers (stands : offset ∈ markers script) (again : other ∈ markers script)
    (later : offset < other) : offset + 4 ≤ other := by
  by_contra near
  obtain ⟨gap, rfl⟩ := Nat.exists_eq_add_of_lt later
  have inside : gap + 1 < marker.length := by
    rw [length_marker]
    omega
  have begins := getElem?_of_mem_markers again (show 0 < marker.length by decide)
  have within := getElem?_of_mem_markers stands inside
  rw [Nat.add_zero, Nat.add_assoc, within] at begins
  have early : gap = 0 ∨ gap = 1 ∨ gap = 2 := by
    rw [length_marker] at inside
    omega
  -- in each case the first byte of the later marker would be another byte of the earlier one
  rcases early with rfl | rfl | rfl
  · cases begins
  · cases begins
  · cases begins

/-! ## Where the markers of a script are -/

/-- Bytes behind it give a stretch no marker that lies within it. -/
theorem mem_markers_append_left_iff (inside : offset + 4 ≤ front.length) :
    offset ∈ markers (front ++ back) ↔ offset ∈ markers front := by
  have split : (front ++ back).drop offset = front.drop offset ++ back :=
    List.drop_append_of_le_length (by omega)
  have room : marker.length ≤ (front.drop offset).length := by
    rw [List.length_drop, length_marker]
    omega
  show marker <+: (front ++ back).drop offset ↔ marker <+: front.drop offset
  rw [split]
  constructor
  · intro stands
    exact List.prefix_of_prefix_length_le stands (List.prefix_append _ _) room
  · intro stands
    exact stands.trans (List.prefix_append _ _)

/-- Behind a stretch without markers there is the marker that ends it, and those further on. -/
theorem mem_markers_append_iff (free : MarkerFree front) :
    offset ∈ markers (front ++ marker ++ back) ↔
      offset = front.length ∨ ∃ further, offset = front.length + 4 + further ∧
        further ∈ markers back := by
  have behind : (front ++ marker ++ back).drop (front.length + 4) = back := by
    rw [← length_marker, ← List.length_append, List.drop_left]
  constructor
  · intro stands
    rcases Nat.lt_trichotomy offset front.length with earlier | here | later
    · have inside := apart_of_mem_markers stands length_mem_markers earlier
      rw [List.append_assoc, mem_markers_append_left_iff inside, markerFree_iff.mp free] at stands
      cases stands
    · exact .inl here
    · obtain ⟨further, rfl⟩ := Nat.exists_eq_add_of_le
        (apart_of_mem_markers length_mem_markers stands later)
      rw [add_mem_markers_iff, behind] at stands
      exact .inr ⟨further, rfl, stands⟩
  · intro place
    rcases place with rfl | ⟨further, rfl, stands⟩
    · exact length_mem_markers
    · rw [add_mem_markers_iff, behind]
      exact stands

/-- A marker behind bytes without one is the first, as none begins in them and ends behind them. -/
theorem isLeast_markers_append (free : MarkerFree front) :
    IsLeast (markers (front ++ marker ++ back)) front.length := by
  refine ⟨length_mem_markers, ?_⟩
  intro other stands
  rcases (mem_markers_append_iff free).mp stands with rfl | ⟨further, rfl, _⟩
  · exact Nat.le_refl _
  · exact Nat.le_trans (Nat.le_add_right _ _) (Nat.le_add_right _ _)

/-- The other markers are those of the bytes behind the first, counted from its end. -/
theorem mem_markers_behind_iff (free : MarkerFree front) :
    offset ∈ markers (front ++ marker ++ back) ∩ Set.Ioi front.length ↔
      ∃ further, offset = front.length + 4 + further ∧ further ∈ markers back := by
  rw [Set.mem_inter_iff, Set.mem_Ioi, mem_markers_append_iff free]
  constructor
  · intro later
    rcases later with ⟨rfl | further, later⟩
    · exact absurd later (Nat.lt_irrefl _)
    · exact further
  · intro further
    refine ⟨.inr further, ?_⟩
    rcases further with ⟨further, rfl, _⟩
    omega

/-! A script is repeated if there is a second marker and the first is not past the middle. -/

/-- A marker between two stretches without one is not repeated. -/
theorem not_repeated_of_markerFree (free : MarkerFree front) (clear : MarkerFree between) :
    ¬ Repeated (front ++ marker ++ between) front.length second := by
  intro again
  obtain ⟨further, _, stands⟩ := (mem_markers_behind_iff free).mp again.next.1
  rw [markerFree_iff.mp clear] at stands
  cases stands

/-- The marker is repeated by the next one, if no more stands before the first than from it on. -/
theorem repeated_iff (free : MarkerFree front) (clear : MarkerFree between) :
    Repeated (front ++ marker ++ (between ++ marker ++ back)) front.length second ↔
      second = front.length + 4 + between.length ∧
        front.length ≤ 8 + between.length + back.length := by
  have next : IsLeast
      (markers (front ++ marker ++ (between ++ marker ++ back)) ∩ Set.Ioi front.length)
      (front.length + 4 + between.length) := by
    refine ⟨(mem_markers_behind_iff free).mpr ⟨_, rfl, length_mem_markers⟩, ?_⟩
    intro other stands
    obtain ⟨further, rfl, there⟩ := (mem_markers_behind_iff free).mp stands
    exact Nat.add_le_add_left ((isLeast_markers_append clear).2 there) _
  have room : (front ++ marker ++ (between ++ marker ++ back)).length - front.length =
      8 + between.length + back.length := by
    simp only [List.length_append, length_marker]
    omega
  constructor
  · intro again
    have reached := again.reached
    rw [room] at reached
    exact ⟨again.next.unique next, reached⟩
  · intro conditions
    rcases conditions with ⟨rfl, reached⟩
    exact ⟨isLeast_markers_append free, next, by rw [room]; exact reached⟩

/-! ## The verdict of the check -/

/-- The scan meets no marker where the marker does not occur. -/
theorem firstMarker?_eq_none_iff : firstMarker? script = none ↔ MarkerFree script := by
  rw [markerFree_iff]
  constructor
  · exact markers_eq_empty
  · intro absent
    cases scan : firstMarker? script with
    | none => rfl
    | some first =>
        have stands := (firstMarker?_eq_some_iff.mp scan).1
        rw [absent] at stands
        cases stands

theorem check_of_markerFree (free : MarkerFree input.script) : check input = .ok none := by
  have scan := firstMarker?_eq_none_iff.mpr free
  simp only [check, scan]

theorem check_of_repeated (again : Repeated input.script first second) :
    check input = .error (.duplicateMarker first second) := by
  have scan := firstMarker?_eq_some_iff.mpr again.least
  have rescan := (second_eq_some_iff again.least).mpr again
  simp only [check, scan, rescan]

/-- What is said of an input whose script counts as marked once. -/
def verdictOnce (outPoint : OutPoint) (offset : Nat) : Except Rejection (Option Nat) :=
  if outPoint = .null then .ok (some offset) else .error (.parentNotCoinbase offset)

/-- Of a script that is not marked twice the outpoint of the input decides. -/
theorem check_of_once (least : IsLeast (markers input.script) first)
    (once : ∀ second, ¬ Repeated input.script first second) :
    check input = verdictOnce input.outPoint first := by
  have scan := firstMarker?_eq_some_iff.mpr least
  have rescan : (if first ≤ input.script.length - first
      then markerAfter? input.script first else none) = none := by
    apply Option.eq_none_iff_forall_ne_some.mpr
    intro second found
    exact once second ((second_eq_some_iff least).mp found)
  simp only [check, scan, rescan, isCoinbase_iff, verdictOnce]

/-- With a second marker the verdict depends on what stands before the first. -/
theorem check_of_several (split : input.script = front ++ marker ++ between ++ marker ++ back)
    (free : MarkerFree front) (clear : MarkerFree between) :
    check input =
      if front.length ≤ 8 + between.length + back.length then
        .error (.duplicateMarker front.length (front.length + 4 + between.length))
      else verdictOnce input.outPoint front.length := by
  have regrouped : input.script = front ++ marker ++ (between ++ marker ++ back) := by
    rw [split]
    simp only [List.append_assoc]
  by_cases reached : front.length ≤ 8 + between.length + back.length
  · rw [if_pos reached]
    apply check_of_repeated
    rw [regrouped]
    exact (repeated_iff free clear).mpr ⟨rfl, reached⟩
  · rw [if_neg reached]
    apply check_of_once
    · rw [regrouped]
      exact isLeast_markers_append free
    · intro second again
      rw [regrouped] at again
      exact reached ((repeated_iff free clear).mp again).2

/-- Where a later marker stands there is a next one. -/
theorem exists_next (again : other ∈ markers script) (later : first < other) :
    ∃ second, IsLeast (markers script ∩ Set.Ioi first) second := by
  by_contra none
  have absent := eq_empty_of_no_least (not_exists.mp none)
  exact Set.notMem_empty other (absent ▸ ⟨again, later⟩)

theorem exists_verdictOnce_eq_ok_iff {outPoint : OutPoint} :
    (∃ found, verdictOnce outPoint offset = .ok found) ↔ outPoint = .null := by
  unfold verdictOnce
  by_cases created : outPoint = .null
  · simp [created]
  · simp [created]

/-- With a second marker in its script an input is well marked only past the middle. -/
theorem accepted_iff (scan : firstMarker? input.script = some first)
    (again : other ∈ markers input.script) (distinct : other ≠ first) :
    (∃ found, check input = .ok found) ↔
      input.script.length < 2 * first ∧ input.outPoint = .null := by
  have least := firstMarker?_eq_some_iff.mp scan
  have room := add_four_le_of_mem_markers least.1
  by_cases reached : first ≤ input.script.length - first
  · have later : first < other := Nat.lt_of_le_of_ne (least.2 again) (Ne.symm distinct)
    obtain ⟨second, next⟩ := exists_next again later
    rw [check_of_repeated ⟨least, next, reached⟩]
    constructor
    · intro accepted
      rcases accepted with ⟨_, accepted⟩
      cases accepted
    · intro past
      omega
  · rw [check_of_once least fun _ again => reached again.reached, exists_verdictOnce_eq_ok_iff]
    constructor
    · intro created
      exact ⟨by omega, created⟩
    · intro past
      exact past.2

/-! ## Every script -/

/-- The forms of a script, told apart by the number of markers in it. -/
inductive Layout : Bytes → Prop where
  | unmarked {script : Bytes} (free : MarkerFree script) : Layout script
  | single {front between : Bytes} (free : MarkerFree front) (clear : MarkerFree between) :
      Layout (front ++ marker ++ between)
  | several {front between back : Bytes} (free : MarkerFree front)
      (clear : MarkerFree between) : Layout (front ++ marker ++ between ++ marker ++ back)

/-- A script with a marker splits at the first one. -/
theorem exists_split (marked : ¬ MarkerFree script) :
    ∃ front back, script = front ++ marker ++ back ∧ MarkerFree front := by
  cases scan : firstMarker? script with
  | none => exact absurd (firstMarker?_eq_none_iff.mp scan) marked
  | some first =>
      have least := firstMarker?_eq_some_iff.mp scan
      have room := add_four_le_of_mem_markers least.1
      rcases least.1 with ⟨back, behind⟩
      have split : script.take first ++ (marker ++ back) = script := by
        rw [behind, List.take_append_drop]
      refine ⟨script.take first, back, by rw [List.append_assoc, split], ?_⟩
      apply markerFree_iff.mpr
      apply Set.eq_empty_of_forall_notMem
      intro offset stands
      -- a marker within the front would be an earlier one
      have inside := add_four_le_of_mem_markers stands
      have earlier := least.2 (split ▸ (mem_markers_append_left_iff inside).mpr stands)
      rw [List.length_take] at inside
      omega

/-- Every script has one of the three forms: it splits at its first marker, and again behind it. -/
theorem exists_layout (script : Bytes) : Layout script := by
  by_cases free : MarkerFree script
  · exact .unmarked free
  · obtain ⟨front, rest, rfl, frontFree⟩ := exists_split free
    by_cases clear : MarkerFree rest
    · exact .single frontFree clear
    · obtain ⟨between, back, rfl, betweenFree⟩ := exists_split clear
      rw [← List.append_assoc, ← List.append_assoc]
      exact .several frontFree betweenFree

/-- What is known of the markers in the script of an input, and of the verdict on the input. -/
structure Surveyed (input : TxInput) : Prop where
  layout : Layout input.script
  unmarked : MarkerFree input.script → firstMarker? input.script = none ∧ check input = .ok none
  first : ∀ front back, input.script = front ++ marker ++ back → MarkerFree front →
    firstMarker? input.script = some front.length ∧
      ∀ offset, MarkerAt input.script offset ↔
        offset = front.length ∨ ∃ further, offset = front.length + 4 + further ∧
          MarkerAt back further
  single : ∀ front between, input.script = front ++ marker ++ between → MarkerFree front →
    MarkerFree between →
      check input = verdictOnce input.outPoint front.length
  several : ∀ front between back, input.script = front ++ marker ++ between ++ marker ++ back →
    MarkerFree front → MarkerFree between →
      check input =
        if front.length ≤ 8 + between.length + back.length then
          .error (.duplicateMarker front.length (front.length + 4 + between.length))
        else verdictOnce input.outPoint front.length
  apart : ∀ offset other, MarkerAt input.script offset → MarkerAt input.script other →
    offset < other → offset + 4 ≤ other
  inside : ∀ first, firstMarker? input.script = some first → first + 4 ≤ input.script.length
  accepted : ∀ first other, firstMarker? input.script = some first →
    MarkerAt input.script other → other ≠ first →
      ((∃ found, check input = .ok found) ↔
        input.script.length < 2 * first ∧ input.outPoint = .null)

/-- What is known of an input holds of every one: the stretches around the markers of its script
decide where the first marker is found and what the check says. -/
theorem check_surveyed (input : TxInput) : Surveyed input where
  layout := exists_layout input.script
  unmarked free := ⟨firstMarker?_eq_none_iff.mpr free, check_of_markerFree free⟩
  first := by
    intro front back split free
    rw [split, firstMarker?_eq_some_iff]
    exact ⟨isLeast_markers_append free, fun offset => mem_markers_append_iff free⟩
  single := by
    intro front between split free clear
    apply check_of_once
    · rw [split]
      exact isLeast_markers_append free
    · intro second
      rw [split]
      exact not_repeated_of_markerFree free clear
  several := fun _ _ _ split free clear => check_of_several split free clear
  apart := fun _ _ stands again later => apart_of_mem_markers stands again later
  inside := by
    intro first scan
    exact add_four_le_of_mem_markers (firstMarker?_eq_some_iff.mp scan).1
  accepted := fun _ _ scan again distinct => accepted_iff scan again distinct

/-- A script whose first of two markers stands past the middle, one where it does not, one with a
single marker in an input that spends an earlier output, and one without a marker. -/
theorem check_surveyed_of_two_markers :
    check ⟨.null, List.replicate 12 7 ++ marker ++ [1] ++ marker ++ [], 0⟩ = .ok (some 12) ∧
    check ⟨.null, [7] ++ marker ++ [1] ++ marker ++ [], 0⟩ = .error (.duplicateMarker 1 6) ∧
    check ⟨⟨.zero, 0⟩, [7] ++ marker ++ [1], 0⟩ = .error (.parentNotCoinbase 1) ∧
    check ⟨.null, [7, 1], 0⟩ = .ok none ∧
    (∃ found,
      check ⟨.null, List.replicate 12 7 ++ marker ++ [1] ++ marker ++ [], 0⟩ = .ok found) := by
  have far : MarkerFree (List.replicate 12 7) := firstMarker?_eq_none_iff.mp (by decide)
  have near : MarkerFree [7] := firstMarker?_eq_none_iff.mp (by decide)
  have between : MarkerFree [1] := firstMarker?_eq_none_iff.mp (by decide)
  have neither : MarkerFree [7, 1] := firstMarker?_eq_none_iff.mp (by decide)
  refine ⟨((check_surveyed _).several (List.replicate 12 7) [1] [] rfl far between).trans
      (if_neg (by decide)),
    ((check_surveyed _).several [7] [1] [] rfl near between).trans (if_pos (by decide)),
    (check_surveyed _).single [7] [1] rfl near between,
    ((check_surveyed _).unmarked neither).2, ?_⟩
  exact ((check_surveyed _).accepted 12 17 (by decide) (by decide) (by decide)).mpr ⟨by decide, rfl⟩

-- Three bytes of the marker before it and three behind it do not hide it.
example : check ⟨.null, [0xfa, 0xbe, 0x6d] ++ marker ++ [0xfa, 0xbe, 0x6d], 0⟩ = .ok (some 3) := by
  decide

end MergedMining.Coinbase
