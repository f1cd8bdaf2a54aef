/-
Module: MergedMining.Proofs.RecordReading
Purpose: Which objects and which arrays a record is read from.
Trusted boundary: none
Main exports: Json.written, Json.Given, Json.fields?_object_eq_some_iff, Json.Row,
  Json.fields?_array_eq_some_iff, Json.fields?_of_missing, Json.fields?_of_repeated
-/
import MergedMining.Json.Form

/-!
A record is read from an object if each of its fields is one of the members or has a default.  In
what order the members stand, and which others stand among them, does not count: the members of an
object that is read are those of the fields up to their order, and any others of unknown names.  A
row of items must have the order of the fields and may only stop early.
-/

namespace MergedMining.Json

variable {fields : List RecordField} {values items : List Json}
  {members given others : List (String × Json)}

/-! ## Members by name -/

/-- Members as they stand in an object, each with a text as its name. -/
def written (members : List (String × Json)) : List (Text × Json) :=
  members.map fun (name, value) => (some name, value)

theorem namedMembers?_cons (name : String) (value : Json) (members : List (Text × Json)) :
    namedMembers? ((some name, value) :: members) =
      (namedMembers? members).map ((name, value) :: ·) := by
  have unfolded : namedMembers? ((some name, value) :: members) =
      (namedMembers? members).bind fun later => some ((name, value) :: later) := by
    rw [namedMembers?, List.mapM_cons]
    rfl
  rw [unfolded]
  cases namedMembers? members <;> rfl

/-- Members have their names read if each name has a text. -/
theorem namedMembers?_eq_some_iff {members : List (Text × Json)} {named : List (String × Json)} :
    namedMembers? members = some named ↔ members = written named := by
  induction members generalizing named with
  | nil => cases named <;> simp [namedMembers?, written]
  | cons member members ih =>
      obtain ⟨name?, value⟩ := member
      cases name? with
      | none => cases named <;> simp [namedMembers?, List.mapM_cons, written]
      | some name =>
          rw [namedMembers?_cons, Option.map_eq_some_iff]
          constructor
          · rintro ⟨later, read, rfl⟩
            rw [ih.mp read]
            rfl
          · intro same
            cases named with
            | nil => cases same
            | cons member later =>
                obtain ⟨first, rest⟩ := List.cons.inj same
                cases first
                exact ⟨later, ih.mpr rest, rfl⟩

/-- A member of the name. -/
def isNamed (name : String) (member : String × Json) : Bool := member.1 == name

theorem filter_isNamed_eq_nil {name : String} :
    members.filter (isNamed name) = [] ↔ ∀ member ∈ members, member.1 ≠ name := by
  simp [isNamed]

/-- A field has its default where no member has its name, and otherwise the value of the only member
which has it. -/
theorem RecordField.among?_eq_some_iff {field : RecordField} {value : Json} :
    field.among? members = some value ↔
      members.filter (isNamed field.name) = [] ∧ field.ifMissing = some value ∨
        members.filter (isNamed field.name) = [(field.name, value)] := by
  have same : (fun member : String × Json => member.1 == field.name) = isNamed field.name := rfl
  rw [among?, same]
  cases found : members.filter (isNamed field.name) with
  | nil => simp
  | cons member later =>
      have named : member.1 = field.name := by
        have among : member ∈ members.filter (isNamed field.name) := by
          rw [found]
          exact List.mem_cons_self
        simpa [isNamed] using (List.mem_filter.mp among).2
      obtain ⟨name, present⟩ := member
      subst named
      cases later with
      | nil => simp
      | cons second later => simp

/-! ## Objects -/

/-- The members that give fields their values.  What no member gives is the default of its field. -/
inductive Given : List RecordField → List Json → List (String × Json) → Prop where
  | nil : Given [] [] []
  | member {field : RecordField} {fields : List RecordField} {value : Json} {values : List Json}
      {given : List (String × Json)} (rest : Given fields values given) :
      Given (field :: fields) (value :: values) ((field.name, value) :: given)
  | missing {field : RecordField} {fields : List RecordField} {value : Json} {values : List Json}
      {given : List (String × Json)} (default : field.ifMissing = some value)
      (rest : Given fields values given) : Given (field :: fields) (value :: values) given

/-- A field that must be given is the first of what is given. -/
theorem Given.of_needed {field : RecordField} {value : Json}
    (given? : Given (field :: fields) (value :: values) given) (needed : field.ifMissing = none) :
    ∃ rest, given = (field.name, value) :: rest ∧ Given fields values rest := by
  cases given? with
  | member rest => exact ⟨_, rfl, rest⟩
  | missing default =>
      rw [needed] at default
      cases default

/-- The names of the fields. -/
def names (fields : List RecordField) : List String := fields.map RecordField.name

/-- Nothing is given but what is known. -/
theorem Given.mem_names (given? : Given fields values given) :
    ∀ member ∈ given, member.1 ∈ names fields := by
  induction given? with
  | nil => simp
  | member _ ih =>
      intro member among
      rcases List.mem_cons.mp among with rfl | later
      · exact List.mem_cons_self
      · exact List.mem_cons_of_mem _ (ih member later)
  | missing _ _ ih => exact fun member among => List.mem_cons_of_mem _ (ih member among)

/-- What fields give has no name that they do not have. -/
theorem Given.filter_isNamed (given? : Given fields values given) {name : String}
    (other : name ∉ names fields) : given.filter (isNamed name) = [] := by
  rw [filter_isNamed_eq_nil]
  rintro member among rfl
  exact other (given?.mem_names member among)

theorem filter_isNamed_of_unknown {field : RecordField}
    (unknown : ∀ member ∈ others, member.1 ∉ names (field :: fields)) :
    others.filter (isNamed field.name) = [] := by
  rw [filter_isNamed_eq_nil]
  intro member among same
  apply unknown member among
  rw [same]
  exact List.mem_cons_self

/-- The values are found wherever the members that give them stand. -/
theorem Given.mapM_among? (given? : Given fields values given) (distinct : (names fields).Nodup)
    (order : members.Perm (given ++ others))
    (unknown : ∀ member ∈ others, member.1 ∉ names fields) :
    (fields.mapM fun field => field.among? members) = some values := by
  induction given? generalizing others with
  | nil => rfl
  | @member field fields value values given rest ih =>
      obtain ⟨fresh, distinct⟩ := List.nodup_cons.mp distinct
      have first : field.among? members = some value := by
        have found := order.filter (isNamed field.name)
        have itself : isNamed field.name (field.name, value) = true := beq_self_eq_true _
        rw [List.cons_append, List.filter_cons_of_pos itself, List.filter_append,
          rest.filter_isNamed fresh, filter_isNamed_of_unknown unknown] at found
        exact RecordField.among?_eq_some_iff.mpr (.inr (List.perm_singleton.mp found))
      have later : (fields.mapM fun field => field.among? members) = some values := by
        apply ih distinct (order.trans List.perm_middle.symm)
        intro member among
        rcases List.mem_cons.mp among with rfl | other
        · exact fresh
        · exact fun known => unknown member other (List.mem_cons_of_mem _ known)
      rw [List.mapM_cons, first, later]
      rfl
  | @missing field fields value values given default rest ih =>
      obtain ⟨fresh, distinct⟩ := List.nodup_cons.mp distinct
      have first : field.among? members = some value := by
        have found := order.filter (isNamed field.name)
        rw [List.filter_append, rest.filter_isNamed fresh,
          filter_isNamed_of_unknown unknown] at found
        exact RecordField.among?_eq_some_iff.mpr (.inl ⟨List.perm_nil.mp found, default⟩)
      have later : (fields.mapM fun field => field.among? members) = some values :=
        ih distinct order fun member among known =>
          unknown member among (List.mem_cons_of_mem _ known)
      rw [List.mapM_cons, first, later]
      rfl

/-- The members from which values are found are those that give them, and unknown ones. -/
theorem exists_given (distinct : (names fields).Nodup)
    (found : (fields.mapM fun field => field.among? members) = some values) :
    ∃ given others, Given fields values given ∧ members.Perm (given ++ others) ∧
      ∀ member ∈ others, member.1 ∉ names fields := by
  induction fields generalizing values with
  | nil =>
      cases found
      exact ⟨[], members, .nil, .rfl, by simp [names]⟩
  | cons field fields ih =>
      obtain ⟨fresh, distinct⟩ := List.nodup_cons.mp distinct
      simp only [List.mapM_cons, Option.bind_eq_bind, Option.bind_eq_some_iff] at found
      obtain ⟨value, first, values, later, same⟩ := found
      cases same
      obtain ⟨given, others, given?, order, unknown⟩ := ih distinct later
      have named : (members.filter (isNamed field.name)).Perm
          (others.filter (isNamed field.name)) := by
        have filtered := order.filter (isNamed field.name)
        rwa [List.filter_append, given?.filter_isNamed fresh] at filtered
      rcases RecordField.among?_eq_some_iff.mp first with ⟨none, default⟩ | one
      · rw [none] at named
        have absent := filter_isNamed_eq_nil.mp (List.nil_perm.mp named)
        refine ⟨given, others, .missing default given?, order, ?_⟩
        intro member among known
        rcases List.mem_cons.mp known with same | known
        · exact absent member among same
        · exact unknown member among known
      · rw [one, List.singleton_perm] at named
        -- the one member of the name is moved to the front of those that give values
        have split := List.filter_append_perm (isNamed field.name) others
        rw [← named] at split
        refine ⟨(field.name, value) :: given,
          others.filter fun member => !isNamed field.name member, .member given?, ?_, ?_⟩
        · exact order.trans ((List.Perm.append_left given split.symm).trans List.perm_middle)
        · intro member among known
          obtain ⟨among, other⟩ := List.mem_filter.mp among
          rcases List.mem_cons.mp known with same | known
          · simp [isNamed, same] at other
          · exact unknown member among known

/-- A record is read from an object exactly if the members are those that give it, in any order, and
any others whose names are texts and unknown. -/
theorem fields?_object_eq_some_iff (distinct : (names fields).Nodup)
    {members : List (Text × Json)} :
    fields? fields (.object members) = some values ↔
      ∃ named given others, members = written named ∧ Given fields values given ∧
        named.Perm (given ++ others) ∧ ∀ member ∈ others, member.1 ∉ names fields := by
  simp only [fields?, Option.bind_eq_bind, Option.bind_eq_some_iff]
  constructor
  · rintro ⟨named, known, found⟩
    obtain ⟨given, others, given?, order, unknown⟩ := exists_given distinct found
    exact ⟨named, given, others, namedMembers?_eq_some_iff.mp known, given?, order, unknown⟩
  · rintro ⟨named, given, others, known, given?, order, unknown⟩
    exact ⟨named, namedMembers?_eq_some_iff.mpr known,
      given?.mapM_among? distinct order unknown⟩

/-! ## Objects that no record is read from -/

/-- How often a name occurs among the keys of an object. -/
def occurrences (name : String) (members : List (Text × Json)) : Nat :=
  (members.map Prod.fst).count (some name)

theorem occurrences_written (name : String) :
    occurrences name (written members) = (members.filter (isNamed name)).length := by
  induction members with
  | nil => rfl
  | cons member members ih =>
      simp only [occurrences, written, List.map_cons, List.count_cons] at ih ⊢
      rw [ih, List.filter_cons]
      by_cases same : member.1 = name <;> simp [isNamed, same]

/-- Where the fields of an object are read, each of them is found among the members. -/
theorem exists_among? {members : List (Text × Json)}
    (found : fields? fields (.object members) = some values) {field : RecordField}
    (known : field ∈ fields) :
    ∃ named value, members = written named ∧ field.among? named = some value := by
  simp only [fields?, Option.bind_eq_bind, Option.bind_eq_some_iff] at found
  obtain ⟨named, texts, found⟩ := found
  refine ⟨named, ?_⟩
  induction fields generalizing values with
  | nil => cases known
  | cons first fields ih =>
      simp only [List.mapM_cons, Option.bind_eq_bind, Option.bind_eq_some_iff] at found
      obtain ⟨value, here, later, others, -⟩ := found
      rcases List.mem_cons.mp known with rfl | known
      · exact ⟨value, namedMembers?_eq_some_iff.mp texts, here⟩
      · exact ih known others

/-- A field without a default must be there. -/
theorem fields?_of_missing {field : RecordField} {members : List (Text × Json)}
    (known : field ∈ fields) (needed : field.ifMissing = none)
    (missing : occurrences field.name members = 0) : fields? fields (.object members) = none := by
  cases found : fields? fields (.object members) with
  | none => rfl
  | some values =>
      obtain ⟨named, value, rfl, among⟩ := exists_among? found known
      rw [occurrences_written, List.length_eq_zero_iff] at missing
      rcases RecordField.among?_eq_some_iff.mp among with ⟨-, default⟩ | one
      · rw [needed] at default
        cases default
      · rw [missing] at one
        cases one

/-- No field may be there twice. -/
theorem fields?_of_repeated {field : RecordField} {members : List (Text × Json)}
    (known : field ∈ fields) (repeated : 2 ≤ occurrences field.name members) :
    fields? fields (.object members) = none := by
  cases found : fields? fields (.object members) with
  | none => rfl
  | some values =>
      obtain ⟨named, value, rfl, among⟩ := exists_among? found known
      rw [occurrences_written] at repeated
      rcases RecordField.among?_eq_some_iff.mp among with ⟨none, -⟩ | one
      · simp [none] at repeated
      · simp [one] at repeated

/-! ## Arrays -/

/-- Items that give fields their values in a row.  Where the row has ended, a field has its
default. -/
inductive Row : List RecordField → List Json → List Json → Prop where
  | nil : Row [] [] []
  | item {field : RecordField} {fields : List RecordField} {value : Json}
      {values items : List Json} (rest : Row fields values items) :
      Row (field :: fields) (value :: values) (value :: items)
  | cutOff {field : RecordField} {fields : List RecordField} {value : Json} {values : List Json}
      (default : field.ifCutOff = some value) (rest : Row fields values []) :
      Row (field :: fields) (value :: values) []

/-- An array gives the fields their values in the order of the fields. -/
theorem fields?_array_eq_some_iff :
    fields? fields (.array items) = some values ↔ Row fields values items := by
  rw [fields?]
  constructor
  · intro read
    induction fields generalizing items values with
    | nil =>
        cases items with
        | nil =>
            cases read
            exact .nil
        | cons item items => cases read
    | cons field fields ih =>
        cases items with
        | nil =>
            simp only [inOrder?, Option.bind_eq_bind, Option.bind_eq_some_iff] at read
            obtain ⟨value, default, values, later, same⟩ := read
            cases same
            exact .cutOff default (ih later)
        | cons item items =>
            obtain ⟨values, later, rfl⟩ := Option.map_eq_some_iff.mp read
            exact .item (ih later)
  · intro row
    induction row with
    | nil => rfl
    | item _ ih => rw [inOrder?, ih, Option.map_some]
    | cutOff default _ ih =>
        rw [inOrder?, default, ih]
        rfl

/-- A field that cannot be cut off has its value in front of the others. -/
theorem Row.of_needed {field : RecordField} {value : Json}
    (row : Row (field :: fields) (value :: values) items) (needed : field.ifCutOff = none) :
    ∃ rest, items = value :: rest ∧ Row fields values rest := by
  cases row with
  | item rest => exact ⟨_, rfl, rest⟩
  | cutOff default =>
      rw [needed] at default
      cases default

/-- There is no item for which there is no field. -/
theorem Row.length_le (row : Row fields values items) : items.length ≤ fields.length := by
  induction row with
  | nil => exact Nat.le_refl 0
  | item _ ih => exact Nat.succ_le_succ ih
  | cutOff => exact Nat.zero_le _

/-- There is an item for each of the first fields, if these have no defaults. -/
theorem Row.le_length (row : Row fields values items) {n : Nat} (within : n ≤ fields.length)
    (needed : ∀ field ∈ fields.take n, field.ifCutOff = none) : n ≤ items.length := by
  induction row generalizing n with
  | nil => exact within
  | item _ ih =>
      cases n with
      | zero => exact Nat.zero_le _
      | succ n =>
          obtain ⟨-, others⟩ := List.forall_mem_cons.mp needed
          exact Nat.succ_le_succ (ih (Nat.le_of_succ_le_succ within) others)
  | cutOff default =>
      cases n with
      | zero => exact Nat.zero_le _
      | succ n =>
          obtain ⟨first, -⟩ := List.forall_mem_cons.mp needed
          rw [first] at default
          cases default

end MergedMining.Json
