/-
Module: MergedMining.Proofs.JsonBuilds
Purpose: Lexemes make up a value exactly if they are the lexemes of that value.
Trusted boundary: none
Main exports: Json.buildFrom_tokens, Json.held, Json.Focus.held, Json.held_step,
  Json.build_eq_some_iff, Json.severed_tokens
-/
import MergedMining.Json.Parse
import MergedMining.Proofs.JsonLexemes

/-!
The machine that puts lexemes together finds a value from its lexemes, in whatever it stands; that
goes by induction on the value.  It finds nothing from any others: after each lexeme the stack and
the focus hold just the lexemes so far, whose order can be read off them again.
-/

namespace MergedMining.Json

/-! ## From the lexemes to the value -/

/-- One more lexeme. -/
theorem buildFrom_cons {focus next : Focus} {stack above : List Frame} {token : Token}
    {rest : List Token} (step : focus.step stack token = some (next, above)) :
    buildFrom focus stack (token :: rest) = buildFrom next above rest := by
  rw [buildFrom, step]

/-- A value that comes first in an array is begun like any value in one. -/
theorem buildFrom_firstItem (value : Json) (stack : List Frame) (rest : List Token) :
    buildFrom .firstItem stack (value.tokens ++ rest) =
      buildFrom .value (.item [] :: stack) (value.tokens ++ rest) := by
  cases value with
  | array items =>
      rw [tokens]
      cases itemTokens items with
      | nil => rfl
      | cons first others => rfl
  | object members =>
      rw [tokens]
      cases memberTokens members with
      | nil => rfl
      | cons first others => rfl
  | _ => rfl

mutual

/-- The lexemes of a value are put together to the value, in whatever it stands. -/
theorem buildFrom_tokens :
    ∀ (value : Json) (stack : List Frame) (rest : List Token),
      buildFrom .value stack (value.tokens ++ rest) = buildFrom (.finished value) stack rest
  | .null, _, _ => rfl
  | .bool _, _, _ => rfl
  | .number _, _, _ => rfl
  | .string _, _, _ => rfl
  | .array [], _, _ => rfl
  | .array (item :: items), stack, rest => by
      have laidOut : tokens (.array (item :: items)) ++ rest =
          .openBracket :: (tokens item ++
            ((itemTokens items).flatMap (.comma :: ·) ++ .closeBracket :: rest)) := by
        simp [tokens, itemTokens, enclosed]
      have opened : Focus.step stack .value .openBracket = some (.firstItem, stack) := rfl
      rw [laidOut, buildFrom_cons opened, buildFrom_firstItem, buildFrom_tokens item,
        buildFrom_items items]
      rfl
  | .object [], _, _ => rfl
  | .object ((key, value) :: members), stack, rest => by
      have laidOut : tokens (.object ((key, value) :: members)) ++ rest =
          .openBrace :: .string key :: .colon :: (tokens value ++
            ((memberTokens members).flatMap (.comma :: ·) ++ .closeBrace :: rest)) := by
        simp [tokens, memberTokens, enclosed]
      have opened : Focus.step stack .value .openBrace = some (.firstKey, stack) := rfl
      have named : Focus.step stack .firstKey (.string key) = some (.colon [] key, stack) := rfl
      have parted : Focus.step stack (.colon [] key) .colon =
          some (.value, .member [] key :: stack) := rfl
      rw [laidOut, buildFrom_cons opened, buildFrom_cons named, buildFrom_cons parted,
        buildFrom_tokens value, buildFrom_members members]
      rfl

/-- Further items, and the bracket that closes the array. -/
theorem buildFrom_items :
    ∀ (items before : List Json) (last : Json) (stack : List Frame) (rest : List Token),
      buildFrom (.finished last) (.item before :: stack)
          ((itemTokens items).flatMap (.comma :: ·) ++ .closeBracket :: rest) =
        buildFrom (.finished (.array ((last :: before).reverse ++ items))) stack rest
  | [], before, last, stack, rest => by
      rw [List.append_nil]
      rfl
  | item :: items, before, last, stack, rest => by
      have laidOut : (itemTokens (item :: items)).flatMap (.comma :: ·) ++ .closeBracket :: rest =
          .comma :: (tokens item ++
            ((itemTokens items).flatMap (.comma :: ·) ++ .closeBracket :: rest)) := by
        simp [itemTokens]
      have parted : Focus.step (.item before :: stack) (.finished last) .comma =
          some (.value, .item (last :: before) :: stack) := rfl
      rw [laidOut, buildFrom_cons parted, buildFrom_tokens item, buildFrom_items items]
      simp

/-- Further members, and the brace that closes the object. -/
theorem buildFrom_members :
    ∀ (members before : List (Text × Json)) (key : Text) (last : Json) (stack : List Frame)
      (rest : List Token),
      buildFrom (.finished last) (.member before key :: stack)
          ((memberTokens members).flatMap (.comma :: ·) ++ .closeBrace :: rest) =
        buildFrom (.finished (.object (((key, last) :: before).reverse ++ members))) stack rest
  | [], before, key, last, stack, rest => by
      rw [List.append_nil]
      rfl
  | (name, value) :: members, before, key, last, stack, rest => by
      have laidOut :
          (memberTokens ((name, value) :: members)).flatMap (.comma :: ·) ++ .closeBrace :: rest =
            .comma :: .string name :: .colon :: (tokens value ++
              ((memberTokens members).flatMap (.comma :: ·) ++ .closeBrace :: rest)) := by
        simp [memberTokens]
      have parted : Focus.step (.member before key :: stack) (.finished last) .comma =
          some (.key ((key, last) :: before), stack) := rfl
      have named : Focus.step stack (.key ((key, last) :: before)) (.string name) =
          some (.colon ((key, last) :: before) name, stack) := rfl
      have parted' : Focus.step stack (.colon ((key, last) :: before) name) .colon =
          some (.value, .member ((key, last) :: before) name :: stack) := rfl
      rw [laidOut, buildFrom_cons parted, buildFrom_cons named, buildFrom_cons parted',
        buildFrom_tokens value, buildFrom_members members]
      simp

end

/-! ## From the value to the lexemes -/

theorem itemTokens_eq_map (items : List Json) : itemTokens items = items.map tokens := by
  induction items with
  | nil => rfl
  | cons item items ih => rw [itemTokens, ih, List.map_cons]

/-- The lexemes of a member. -/
def tokensOfMember (member : Text × Json) : List Token :=
  .string member.1 :: .colon :: member.2.tokens

theorem memberTokens_eq_map (members : List (Text × Json)) :
    memberTokens members = members.map tokensOfMember := by
  induction members with
  | nil => rfl
  | cons member members ih =>
      rw [memberTokens, ih, List.map_cons]
      rfl

/-- What stands between brackets, each but the last with the comma behind it. -/
theorem enclosed_concat (first close : Token) (before : List (List Token)) (last : List Token) :
    enclosed first close (before ++ [last]) =
      first :: before.flatMap (· ++ [.comma]) ++ last ++ [close] := by
  have moved : ∀ (head : List Token) (others : List (List Token)),
      head ++ (others ++ [last]).flatMap (.comma :: ·) =
        (head :: others).flatMap (· ++ [.comma]) ++ last := by
    intro head others
    induction others generalizing head with
    | nil => simp
    | cons next others ih =>
        have rest := ih next
        simp only [List.flatMap_cons, List.cons_append, List.append_assoc] at rest ⊢
        rw [rest]
        rfl
  cases before with
  | nil => simp [enclosed]
  | cons head others =>
      rw [List.cons_append, enclosed, moved]
      simp only [List.cons_append]

/-- The lexemes of items before the one that is under way, each with its comma. -/
def itemsBefore (before : List Json) : List Token :=
  before.reverse.flatMap fun item => item.tokens ++ [.comma]

/-- The lexemes of members before the one that is under way, each with its comma. -/
def membersBefore (before : List (Text × Json)) : List Token :=
  before.reverse.flatMap fun member => tokensOfMember member ++ [.comma]

/-- The lexemes of what has been begun on the stack, up to the value in focus. -/
def held : List Frame → List Token
  | [] => []
  | .item before :: outer => held outer ++ .openBracket :: itemsBefore before
  | .member before key :: outer =>
      held outer ++ .openBrace :: membersBefore before ++ [.string key, .colon]

/-- The lexemes of what is in focus. -/
def Focus.held : Focus → List Token
  | .value => []
  | .firstItem => [.openBracket]
  | .firstKey => [.openBrace]
  | .key before => .openBrace :: membersBefore before
  | .colon before name => .openBrace :: membersBefore before ++ [.string name]
  | .finished last => last.tokens

/-- The item that was finished last stands behind the others, with a comma after it. -/
theorem itemsBefore_cons (last : Json) (before : List Json) :
    itemsBefore (last :: before) = itemsBefore before ++ last.tokens ++ [.comma] := by
  simp [itemsBefore]

theorem membersBefore_cons (last : Text × Json) (before : List (Text × Json)) :
    membersBefore (last :: before) = membersBefore before ++ tokensOfMember last ++ [.comma] := by
  simp [membersBefore]

/-- The lexemes of an array, by its last item and those before it. -/
theorem tokens_array (last : Json) (before : List Json) :
    tokens (.array (before.reverse ++ [last])) =
      .openBracket :: itemsBefore before ++ last.tokens ++ [.closeBracket] := by
  rw [tokens, itemTokens_eq_map, List.map_append, List.map_singleton,
    enclosed_concat, List.flatMap_map]
  rfl

/-- The lexemes of an object, by its last member and those before it. -/
theorem tokens_object (last : Text × Json) (before : List (Text × Json)) :
    tokens (.object (before.reverse ++ [last])) =
      .openBrace :: membersBefore before ++ tokensOfMember last ++ [.closeBrace] := by
  rw [tokens, memberTokens_eq_map, List.map_append, List.map_singleton,
    enclosed_concat, List.flatMap_map]
  rfl

variable {focus next : Focus} {stack above : List Frame} {token : Token} {value : Json}

/-- To begin a value is to hold one more lexeme. -/
theorem held_beginValue (begun : beginValue stack token = some (next, above)) :
    held above ++ next.held = held stack ++ [token] := by
  cases token <;> cases begun <;> rfl

/-- No lexeme is lost, and none is made up. -/
theorem held_step (step : focus.step stack token = some (next, above)) :
    held above ++ next.held = held stack ++ focus.held ++ [token] := by
  cases focus with
  | value =>
      rw [Focus.held, List.append_nil]
      exact held_beginValue step
  | firstItem =>
      by_cases closes : token = .closeBracket
      · subst closes
        cases step
        simp [Focus.held, tokens, itemTokens, enclosed]
      · have begun : beginValue (.item [] :: stack) token = some (next, above) := by
          cases token <;> first | exact step | exact absurd rfl closes
        rw [held_beginValue begun]
        simp [held, Focus.held, itemsBefore]
  | firstKey =>
      cases token <;> cases step
      · simp [Focus.held, tokens, memberTokens, enclosed]
      · simp [Focus.held, membersBefore]
  | key before =>
      cases token <;> cases step
      simp [Focus.held]
  | colon before key =>
      cases token <;> cases step
      simp [Focus.held, held]
  | finished last =>
      cases stack with
      | nil => cases token <;> cases step
      | cons frame outer =>
          cases frame with
          | item before =>
              cases token <;> cases step
              · simp [Focus.held, held, tokens_array]
              · simp [Focus.held, held, itemsBefore_cons]
          | member before key =>
              cases token <;> cases step
              · simp [Focus.held, held, tokens_object, tokensOfMember]
              · simp [Focus.held, held, membersBefore_cons, tokensOfMember]

/-- The induction is on the lexemes that are still to come. -/
theorem tokens_of_buildFrom {rest : List Token} (built : buildFrom focus stack rest = some value) :
    value.tokens = held stack ++ focus.held ++ rest := by
  induction rest generalizing focus stack with
  | nil =>
      rw [List.append_nil]
      cases focus with
      | finished last =>
          cases stack with
          | nil =>
              cases built
              rfl
          | cons frame outer => cases built
      | _ => cases built
  | cons token rest ih =>
      rw [buildFrom] at built
      cases step : focus.step stack token with
      | none => simp [step] at built
      | some found =>
          obtain ⟨next, above⟩ := found
          rw [step] at built
          rw [ih built, held_step step, List.append_cons _ token rest]

/-- Lexemes make up a value exactly if they are those of that value. -/
theorem build_eq_some_iff {tokens : List Token} :
    build tokens = some value ↔ tokens = value.tokens := by
  constructor
  · intro built
    exact (tokens_of_buildFrom built).symm
  · rintro rfl
    have put := buildFrom_tokens value [] []
    rw [List.append_nil] at put
    rw [build, put]
    rfl

/-! ## Numbers stand apart -/

/-- A number is finished where it is begun. -/
theorem step_number {integer? : Option Int}
    (step : focus.step stack (.number integer?) = some (next, above)) :
    next = .finished (.number integer?) := by
  cases focus with
  | finished last =>
      cases stack with
      | nil => cases step
      | cons frame outer => cases frame <;> cases step
  | _ => cases step <;> rfl

/-- No number stands right behind a value. -/
theorem step_finished_number (last : Json) (stack : List Frame) (integer? : Option Int) :
    Focus.step stack (.finished last) (.number integer?) = none := by
  cases stack with
  | nil => rfl
  | cons frame outer => cases frame <;> rfl

/-- No value goes on with a number right behind a number. -/
theorem severed_of_buildFrom {rest : List Token}
    (built : buildFrom focus stack rest = some value) : Severed rest := by
  induction rest generalizing focus stack with
  | nil => exact .nil
  | cons token rest ih =>
      rw [buildFrom] at built
      cases step : focus.step stack token with
      | none => simp [step] at built
      | some found =>
          obtain ⟨next, above⟩ := found
          rw [step] at built
          refine List.isChain_cons.mpr ⟨?_, ih built⟩
          intro other first
          cases token with
          | number integer? =>
              cases other with
              | number another? =>
                  obtain ⟨others, rfl⟩ := List.head?_eq_some_iff.mp first
                  simp [step_number step, buildFrom, step_finished_number] at built
              | _ => trivial
          | _ => trivial

/-- No two numbers stand side by side among the lexemes of a value. -/
theorem severed_tokens (value : Json) : Severed value.tokens := by
  have built : buildFrom .value [] value.tokens = some value := build_eq_some_iff.mpr rfl
  exact severed_of_buildFrom built

end MergedMining.Json
