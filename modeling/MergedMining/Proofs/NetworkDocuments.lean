/-
Module: MergedMining.Proofs.NetworkDocuments
Purpose: The texts from which a network is read, in whatever way they present it.
Trusted boundary: none
Main exports: PowAlgorithm.Named, Network.members, Network.Describes, Network.ofJson?_eq_some_iff,
  Network.ofDocument_eq_ok_iff, Network.ofDocument_in_any_presentation
-/
import MergedMining.Proofs.DocumentRoundTrip

/-!
What is read from a text depends on its value alone, not on its blanks, its escapes or its numbers
elsewhere.  A value describes a network as an object whose members stand in any order, with any
others of unknown names among them, or as an array of the same values in their order.  Only the
demand for the marker may be left out, by which it is not made.
-/

namespace MergedMining

open Json

/-! ## Algorithms -/

namespace PowAlgorithm

/-- The two ways in which an algorithm is named. -/
inductive Named (algorithm : PowAlgorithm) : Json → Prop where
  | text : Named algorithm (.string (some algorithm.name))
  | key : Named algorithm (.object [(some algorithm.name, .null)])

/-- The names of the algorithms are all different, and no other text is one. -/
theorem ofName?_eq_some_iff {text : String} {algorithm : PowAlgorithm} :
    ofName? text = some algorithm ↔ text = algorithm.name := by
  constructor
  · intro found
    have same := List.find?_some found
    exact (beq_iff_eq.mp same).symm
  · rintro rfl
    cases algorithm <;> decide

/-- An algorithm is read from its name, or from an object with the name for its only key. -/
theorem ofJson?_eq_some_iff {json : Json} {algorithm : PowAlgorithm} :
    ofJson? json = some algorithm ↔ algorithm.Named json := by
  constructor
  · intro read
    simp only [ofJson?] at read
    split at read
    · cases ofName?_eq_some_iff.mp read
      exact .text
    · cases ofName?_eq_some_iff.mp read
      exact .key
    · cases read
  · intro named
    cases named with
    | text => exact ofName?_eq_some_iff.mpr rfl
    | key => exact ofName?_eq_some_iff.mpr rfl

end PowAlgorithm

/-! ## Networks -/

namespace Network

/-- The members that describe a network, the last of which may be left out. -/
def members (network : Network) (algorithm : Json) : List (String × Json) :=
  [("aux_chain_id", .number (some network.chainId.toNat)),
   ("merged_mining_enabled", .bool network.mergedMining),
   ("merged_mining_start_time", .number (some network.startTime.toNat)),
   ("pow_algorithm", algorithm),
   ("require_merged_mining_header", .bool network.markerRequired)]

/-- The names of these members. -/
def memberNames : List String :=
  ["aux_chain_id", "merged_mining_enabled", "merged_mining_start_time", "pow_algorithm",
   "require_merged_mining_header"]

/-- The values that describe a network: an object of its members in any order, with others of
unknown names among them, or an array of their values in order.  Either is brief without the last of
them, if the marker is not demanded. -/
inductive Describes : Json → Network → Prop where
  | object {network : Network} {algorithm : Json} {named others : List (String × Json)}
      (names : network.algorithm.Named algorithm)
      (order : named.Perm (network.members algorithm ++ others))
      (unknown : ∀ member ∈ others, member.1 ∉ memberNames) :
      Describes (.object (written named)) network
  | briefObject {network : Network} {algorithm : Json} {named others : List (String × Json)}
      (names : network.algorithm.Named algorithm) (lenient : network.markerRequired = false)
      (order : named.Perm ((network.members algorithm).dropLast ++ others))
      (unknown : ∀ member ∈ others, member.1 ∉ memberNames) :
      Describes (.object (written named)) network
  | array {network : Network} {algorithm : Json} (names : network.algorithm.Named algorithm) :
      Describes (.array ((network.members algorithm).map Prod.snd)) network
  | briefArray {network : Network} {algorithm : Json}
      (names : network.algorithm.Named algorithm) (lenient : network.markerRequired = false) :
      Describes (.array ((network.members algorithm).dropLast.map Prod.snd)) network

/-! ### Fields -/

variable {network : Network} {value algorithm : Json}

/-- The values of the fields of a network. -/
def values (network : Network) (algorithm : Json) : List Json :=
  (network.members algorithm).map Prod.snd

/-- A network is put together from the values of its fields, and from no others. -/
theorem ofJson?_eq_some_iff_fields? :
    ofJson? value = some network ↔
      ∃ algorithm, network.algorithm.Named algorithm ∧
        fields? fields value = some (network.values algorithm) := by
  constructor
  · intro read
    obtain ⟨found, known, assembled⟩ := Option.bind_eq_some_iff.mp read
    split at assembled
    case h_2 => cases assembled
    case h_1 chainId enabled startTime algorithm demanded =>
      simp only [Option.bind_eq_bind, Option.bind_eq_some_iff] at assembled
      obtain ⟨_, first, _, second, _, third, _, fourth, _, fifth, same⟩ := assembled
      cases same
      rw [MergedMining.ofJson?_eq_some_iff] at first second third fifth
      rw [PowAlgorithm.ofJson?_eq_some_iff] at fourth
      subst first second third fifth
      exact ⟨algorithm, fourth, known⟩
  · rintro ⟨algorithm, named, known⟩
    have first : ofJson? (.number (some network.chainId.toNat)) = some network.chainId :=
      LawfulForm.ofJson?_toJson network.chainId
    have second : ofJson? (.bool network.mergedMining) = some network.mergedMining := rfl
    have third : ofJson? (.number (some network.startTime.toNat)) = some network.startTime :=
      LawfulForm.ofJson?_toJson network.startTime
    have fourth := PowAlgorithm.ofJson?_eq_some_iff.mpr named
    have fifth : ofJson? (.bool network.markerRequired) = some network.markerRequired := rfl
    apply Option.bind_eq_some_iff.mpr
    refine ⟨_, known, ?_⟩
    simp only [values, members, List.map_cons, List.map_nil, first, second, third, fourth, fifth]
    rfl

/-- The members of a network are given with the demand for the marker, or without it where none is
made. -/
theorem given_iff {given : List (String × Json)} :
    Given fields (network.values algorithm) given ↔
      given = network.members algorithm ∨
        given = (network.members algorithm).dropLast ∧ network.markerRequired = false := by
  constructor
  · intro whole
    obtain ⟨_, rfl, behindChain⟩ := whole.of_needed rfl
    obtain ⟨_, rfl, behindEnabled⟩ := behindChain.of_needed rfl
    obtain ⟨_, rfl, behindTime⟩ := behindEnabled.of_needed rfl
    obtain ⟨_, rfl, behindAlgorithm⟩ := behindTime.of_needed rfl
    cases behindAlgorithm with
    | member rest =>
        cases rest
        exact .inl rfl
    | missing default rest =>
        cases rest
        exact .inr ⟨rfl, (Json.bool.inj (Option.some.inj default)).symm⟩
  · rintro (rfl | ⟨rfl, lenient⟩)
    · exact .member (.member (.member (.member (.member .nil))))
    · have default : some (Json.bool false) = some (Json.bool network.markerRequired) := by
        rw [lenient]
      exact .member (.member (.member (.member (.missing default .nil))))

/-- Likewise in an array, where the demand is the last item. -/
theorem row_iff {items : List Json} :
    Row fields (network.values algorithm) items ↔
      items = network.values algorithm ∨
        items = (network.members algorithm).dropLast.map Prod.snd ∧
          network.markerRequired = false := by
  constructor
  · intro whole
    obtain ⟨_, rfl, behindChain⟩ := whole.of_needed rfl
    obtain ⟨_, rfl, behindEnabled⟩ := behindChain.of_needed rfl
    obtain ⟨_, rfl, behindTime⟩ := behindEnabled.of_needed rfl
    obtain ⟨_, rfl, behindAlgorithm⟩ := behindTime.of_needed rfl
    cases behindAlgorithm with
    | item rest =>
        cases rest
        exact .inl rfl
    | cutOff default rest => exact .inr ⟨rfl, (Json.bool.inj (Option.some.inj default)).symm⟩
  · rintro (rfl | ⟨rfl, lenient⟩)
    · exact .item (.item (.item (.item (.item .nil))))
    · have default : some (Json.bool false) = some (Json.bool network.markerRequired) := by
        rw [lenient]
      exact .item (.item (.item (.item (.cutOff default .nil))))

/-- Only the demand for the marker has a default. -/
theorem ifMissing_eq_none {field : RecordField} (among : field ∈ fields)
    (needed : field.name ≠ "require_merged_mining_header") : field.ifMissing = none := by
  have all : ∀ field ∈ fields, field.name ≠ "require_merged_mining_header" →
      field.ifMissing = none := by decide
  exact all field among needed

/-- A network is read from the values that describe it, and from no others. -/
theorem ofJson?_eq_some_iff : ofJson? value = some network ↔ Describes value network := by
  have distinct : (Json.names fields).Nodup := by decide
  rw [ofJson?_eq_some_iff_fields?]
  constructor
  · rintro ⟨algorithm, names, known⟩
    cases value with
    | object members =>
        obtain ⟨named, given, others, rfl, given?, order, unknown⟩ :=
          (fields?_object_eq_some_iff distinct).mp known
        rcases given_iff.mp given? with rfl | ⟨rfl, lenient⟩
        · exact .object names order unknown
        · exact .briefObject names lenient order unknown
    | array items =>
        rcases row_iff.mp (fields?_array_eq_some_iff.mp known) with rfl | ⟨rfl, lenient⟩
        · exact .array names
        · exact .briefArray names lenient
    | _ => cases known
  · intro describes
    cases describes with
    | object names order unknown =>
        exact ⟨_, names, (fields?_object_eq_some_iff distinct).mpr
          ⟨_, _, _, rfl, given_iff.mpr (.inl rfl), order, unknown⟩⟩
    | briefObject names lenient order unknown =>
        exact ⟨_, names, (fields?_object_eq_some_iff distinct).mpr
          ⟨_, _, _, rfl, given_iff.mpr (.inr ⟨rfl, lenient⟩), order, unknown⟩⟩
    | array names =>
        exact ⟨_, names, fields?_array_eq_some_iff.mpr (row_iff.mpr (.inl rfl))⟩
    | briefArray names lenient =>
        exact ⟨_, names, fields?_array_eq_some_iff.mpr (row_iff.mpr (.inr ⟨rfl, lenient⟩))⟩

/-! ### Texts -/

variable {complaint : String → String} {text : String}

/-- A network is read from the texts of the values that describe it. -/
theorem ofDocument_eq_ok_iff :
    ofDocument complaint text = .ok network ↔
      ∃ value, Denotes text value ∧ Describes value network := by
  have read : ofDocument complaint text = .ok network ↔
      (JsonForm.ofText? text : Option Network) = some network := by
    unfold ofDocument
    cases (JsonForm.ofText? text : Option Network) <;> simp
  rw [read, JsonForm.ofText?, Option.bind_eq_some_iff]
  simp only [parse?_eq_some_iff, ofJson?_eq_some_iff]

/-- A text from which no network is read is refused as a configuration, with what the reader says of
it. -/
theorem ofDocument_refused (unread : ∀ network, ofDocument complaint text ≠ .ok network) :
    ofDocument complaint text = .error (.config (complaint text)) := by
  unfold ofDocument at unread ⊢
  cases read : (JsonForm.ofText? text : Option Network) with
  | none => rfl
  | some network =>
      rw [read] at unread
      exact absurd rfl (unread network)

/-- A text whose value has fields that cannot be read is refused. -/
theorem ofDocument_of_fields?_eq_none (denotes : Denotes text value)
    (unread : fields? fields value = none) :
    ofDocument complaint text = .error (.config (complaint text)) := by
  apply ofDocument_refused
  intro network read
  obtain ⟨other, otherwise, describes⟩ := ofDocument_eq_ok_iff.mp read
  have same : other = value := otherwise.unique denotes
  obtain ⟨algorithm, -, known⟩ :=
    ofJson?_eq_some_iff_fields?.mp (ofJson?_eq_some_iff.mpr describes)
  rw [same, unread] at known
  cases known

/-- Which network is read from a text depends only on the value that the text writes, in whatever
way it writes it: an object with the members of the network in any order and any others of unknown
names among them, or an array of the same values.  Any other text is refused as a configuration,
among them each with a known member twice or without one of the first four, and each with an item
too few or too many, whatever else stands in it. -/
theorem ofDocument_in_any_presentation (complaint : String → String) :
    (∀ text network, ofDocument complaint text = .ok network ↔
      ∃ value, Denotes text value ∧ Describes value network) ∧
    (∀ text, (∀ network, ofDocument complaint text ≠ .ok network) →
      ofDocument complaint text = .error (.config (complaint text))) ∧
    (∀ text members, Denotes text (.object members) → ∀ name ∈ memberNames,
      2 ≤ occurrences name members ∨
        occurrences name members = 0 ∧ name ≠ "require_merged_mining_header" →
      ofDocument complaint text = .error (.config (complaint text))) ∧
    (∀ text items, Denotes text (.array items) → items.length < 4 ∨ 6 ≤ items.length →
      ofDocument complaint text = .error (.config (complaint text))) := by
  refine ⟨fun _ _ => ofDocument_eq_ok_iff, fun _ => ofDocument_refused, ?members, ?items⟩
  case members =>
    intro text members denotes name known wrong
    apply ofDocument_of_fields?_eq_none denotes
    obtain ⟨field, among, rfl⟩ := List.mem_map.mp (show name ∈ Json.names fields from known)
    rcases wrong with repeated | ⟨missing, needed⟩
    · exact fields?_of_repeated among repeated
    · exact fields?_of_missing among (ifMissing_eq_none among needed) missing
  case items =>
    intro text items denotes wrong
    apply ofDocument_of_fields?_eq_none denotes
    cases found : fields? fields (.array items) with
    | none => rfl
    | some values =>
        have row := fields?_array_eq_some_iff.mp found
        -- the first four fields cannot be cut off, and there is no sixth
        have most : items.length ≤ 5 := row.length_le
        have least : 4 ≤ items.length := row.le_length (by decide) (by decide)
        omega

/-- A description in brief, one with a known member twice, the second time with an escape in its
name, and one with too few items. -/
theorem ofDocument_in_any_presentation_of_faulty :
    ofDocument id "[98, true, 0, \"scrypt\"]" = .ok (Network.of 98 .scrypt) ∧
    ofDocument id "\x7b\"pow_algorithm\": 1, \"pow\\u005falgorithm\": [2]\x7d" =
      .error (.config "\x7b\"pow_algorithm\": 1, \"pow\\u005falgorithm\": [2]\x7d") ∧
    ofDocument id "[98, true]" = .error (.config "[98, true]") := by
  obtain ⟨described, -, members, items⟩ := ofDocument_in_any_presentation id
  have brief : Denotes "[98, true, 0, \"scrypt\"]"
      (.array
        (((Network.of 98 .scrypt).members (.string (some "scrypt"))).dropLast.map Prod.snd)) :=
    parse?_eq_some_iff.mp rfl
  have twice : Denotes "\x7b\"pow_algorithm\": 1, \"pow\\u005falgorithm\": [2]\x7d"
      (.object [(some "pow_algorithm", .number (some 1)),
        (some "pow_algorithm", .array [.number (some 2)])]) :=
    parse?_eq_some_iff.mp rfl
  have short : Denotes "[98, true]" (.array [.number (some 98), .bool true]) :=
    parse?_eq_some_iff.mp rfl
  refine ⟨(described _ _).mpr ⟨_, brief, .briefArray .text rfl⟩, ?_, ?_⟩
  · exact members _ _ twice "pow_algorithm" (by decide) (.inl (by decide))
  · exact items _ _ short (.inl (by decide))

/-! Keys are compared as texts, so an escape in one changes nothing. -/

example :
    (ofDocument id
      ("\x7b\"x\": [\x7b\x7d, 1e9], \"pow_algorithm\": \x7b\"default\": null\x7d,\r\n"
        ++ "\"merged_mining_start_time\":7, \"\\u0061ux_chain_id\" :98,"
        ++ "\t\"merged_mining_enabled\": true\x7d ")).toOption =
      some ((Network.of 98 .unspecified).startingAt 7) := by
  decide +kernel

end Network

end MergedMining
