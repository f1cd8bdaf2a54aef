/-
Module: MergedMining.Proofs.JsonTexts
Purpose: A text is read as a value exactly if it is one of the texts of that value.
Trusted boundary: none
Main exports: Json.parse?_eq_some_iff, Json.spelling_spell, Json.Layout.Blank, Json.denotes_print,
  Json.parse?_compact, Json.parse?_pretty
-/
import MergedMining.Json.Print
import MergedMining.Proofs.JsonBuilds
import MergedMining.Proofs.JsonScans

/-!
Between a text and its value stand the lexemes of the value.  The scan finds the lexemes that a text
consists of, and lexemes make up the value whose lexemes they are; so reading undoes writing,
however a value is written, and nothing else is read.

Printing is one way to write a value.  It holds of any value: of members in any order and with
repeated keys, of strings of any characters and of strings without a text.
-/

namespace MergedMining.Json

/-! ## Reading -/

/-- The reader finds the values that texts denote by the grammar, and no others. -/
theorem parse?_eq_some_iff {text : String} {value : Json} :
    parse? text = some value ↔ Denotes text value := by
  rw [parse?, Option.bind_eq_some_iff]
  constructor
  · rintro ⟨tokens, scanned, built⟩
    rw [build_eq_some_iff] at built
    subst built
    exact laid_of_scan scanned
  · intro laid
    exact ⟨value.tokens, scan_laid laid (severed_tokens value), build_eq_some_iff.mpr rfl⟩

/-- The grammar is unambiguous: a text denotes one value at most. -/
theorem Denotes.unique {text : String} {one other : Json} (first : Denotes text one)
    (second : Denotes text other) : one = other := by
  rw [← parse?_eq_some_iff] at first second
  exact Option.some.inj (first.symm.trans second)

/-! ## Printed lexemes -/

/-- A control character without a letter of its own is a unit. -/
theorem pieceText_control {c : Char} (control : c.toNat < 0x20) :
    PieceText (.unit c.toNat)
      ['\\', 'u', '0', '0', (c.toNat / 16).digitChar, (c.toNat % 16).digitChar] := by
  have zero : HexDigit '0' 0 := ⟨by decide, .inl rfl⟩
  have high : HexDigit (c.toNat / 16).digitChar (c.toNat / 16) := ⟨by omega, .inl rfl⟩
  have low : HexDigit (c.toNat % 16).digitChar (c.toNat % 16) := ⟨by omega, .inl rfl⟩
  have number := (((HexNumber.nil.snoc zero).snoc zero).snoc high).snoc low
  have value : 16 * (16 * (16 * (16 * 0 + 0) + 0) + c.toNat / 16) + c.toNat % 16 = c.toNat := by
    omega
  rw [value] at number
  exact .unit number rfl

/-- A character is written as one piece, from which that character is read. -/
theorem exists_piece (c : Char) :
    ∃ piece, PieceText piece (escapeChar c) ∧
      ∀ others, characters? (piece :: others) = (characters? others).map (c :: ·) := by
  unfold escapeChar
  split_ifs with quotation backslash backspace feed line carriage tab control
  -- the characters that have letters stand before the two other cases
  rotate_left 7
  · refine ⟨.unit c.toNat, pieceText_control control, ?_⟩
    intro others
    have notLeading : ¬ (0xd800 ≤ c.toNat ∧ c.toNat < 0xdc00) := by omega
    have notTrailing : ¬ (0xdc00 ≤ c.toNat ∧ c.toNat < 0xe000) := by omega
    rw [characters?.eq_def]
    simp only [notLeading, notTrailing, if_false, Char.ofNat_toNat]
  · exact ⟨.char c, .plain quotation backslash control, fun _ => rfl⟩
  all_goals
    subst c
    exact ⟨.char _, .escape (by decide), fun _ => rfl⟩

/-- Escaped characters are pieces of a string with just these characters. -/
theorem exists_pieces (chars : List Char) :
    ∃ pieces texts, List.Forall₂ PieceText pieces texts ∧
      texts.flatten = chars.flatMap escapeChar ∧ characters? pieces = some chars := by
  induction chars with
  | nil => exact ⟨[], [], .nil, rfl, rfl⟩
  | cons c chars ih =>
      obtain ⟨piece, spelled, first⟩ := exists_piece c
      obtain ⟨pieces, texts, others, written, known⟩ := ih
      refine ⟨piece :: pieces, escapeChar c :: texts, .cons spelled others, ?_, ?_⟩
      · rw [List.flatten_cons, written, List.flatMap_cons]
      · rw [first, known, Option.map_some]

/-- A quoted text is a spelling of the string with that text. -/
theorem spelling_quote (text : String) : Spelling (.string (some text)) (quote text) := by
  obtain ⟨pieces, texts, spelled, written, known⟩ := exists_pieces text.toList
  have same : textOf pieces = some text := by
    rw [textOf, known, Option.map_some, String.ofList_toList]
  rw [quote, ← written, ← same]
  exact .string spelled

/-- What a lexeme is printed as is one of its spellings. -/
theorem spelling_spell (token : Token) : Spelling token token.spell := by
  cases token with
  | number integer? =>
      cases integer? with
      | some n => exact .number (.integer n)
      | none =>
          have fraction : Fraction ['.', '0'] := .present (.single rfl)
          have text : NumberText (signText false ++ Nat.toDigits 10 0 ++ ['.', '0'] ++ []) none :=
            .other fraction .absent (.inl (by simp))
          exact .number text
  | string text? =>
      cases text? with
      | some text => exact spelling_quote text
      | none =>
          have high : HexDigit 'd' 13 := ⟨by decide, .inl rfl⟩
          have low : HexDigit '8' 8 := ⟨by decide, .inl rfl⟩
          have zero : HexDigit '0' 0 := ⟨by decide, .inl rfl⟩
          have number := (((HexNumber.nil.snoc high).snoc low).snoc zero).snoc zero
          have piece : PieceText (.unit 0xd800) ['\\', 'u', 'd', '8', '0', '0'] :=
            .unit number rfl
          exact .string (.cons piece .nil)
  | _ => exact .fixed trivial

/-! ## Printed values -/

/-- The blanks of a layout are blanks. -/
structure Layout.Blank (layout : Layout) : Prop where
  gap : ∀ depth, ∀ c ∈ layout.gap depth, isBlank c = true
  space : ∀ c ∈ layout.space, isBlank c = true

/-- Blanks before a text change nothing. -/
theorem Laid.behind {gap text : List Char} {tokens : List Token}
    (blank : ∀ c ∈ gap, isBlank c = true) (laid : Laid text tokens) : Laid (gap ++ text) tokens :=
  (Laid.blanks blank).append laid

/-- A text with a separator between each two of its parts. -/
theorem intercalate_cons {α : Type} (separator first : List α) (others : List (List α)) :
    separator.intercalate (first :: others) = first ++ others.flatMap (separator ++ ·) := by
  induction others generalizing first with
  | nil => simp [List.intercalate]
  | cons second others ih =>
      rw [List.intercalate_cons_cons, ih second, List.flatMap_cons, List.append_assoc,
        List.append_assoc]

variable {layout : Layout}

/-- Items or members behind the first. -/
theorem laid_others (blank : layout.Blank) (depth : Nat) {texts : List (List Char)}
    {lists : List (List Token)} (laid : List.Forall₂ Laid texts lists) :
    Laid (texts.flatMap fun text => Token.comma.spell ++ (layout.gap depth ++ text))
      (lists.flatMap (.comma :: ·)) := by
  induction laid with
  | nil => exact .nil
  | cons first _ ih =>
      exact ((spelling_spell .comma).laid.append (first.behind (blank.gap depth))).append ih

/-- Items and members are put between brackets alike. -/
theorem laid_enclose (blank : layout.Blank) {depth : Nat} (first last : Token)
    {texts : List (List Char)} {lists : List (List Token)}
    (laid : List.Forall₂ Laid texts lists) :
    Laid (layout.enclose depth first last texts) (enclosed first last lists) := by
  have opening := (spelling_spell first).laid
  have closing := (spelling_spell last).laid
  cases laid with
  | nil => simpa [Layout.enclose, enclosed] using opening.append closing
  | @cons text tokens texts lists head others =>
      have inside := (head.behind (blank.gap (depth + 1))).append
        (laid_others blank (depth + 1) others)
      have whole := opening.append (inside.append (closing.behind (blank.gap depth)))
      simpa [Layout.enclose, enclosed, intercalate_cons, List.flatMap_map] using whole

/-- The key of a member is in front of its value. -/
theorem Laid.member (blank : layout.Blank) (key : Text) {text : List Char} {tokens : List Token}
    (value : Laid text tokens) :
    Laid ((Token.string key).spell ++ Token.colon.spell ++ layout.space ++ text)
      (.string key :: .colon :: tokens) := by
  have named := (spelling_spell (.string key)).laid.append (spelling_spell .colon).laid
  rw [List.append_assoc]
  exact named.append (value.behind blank.space)

mutual

/-- A value is printed as one of its texts, by recursion on the value. -/
theorem laid_print (blank : layout.Blank) :
    ∀ (value : Json) (depth : Nat), Laid (value.print layout depth) value.tokens
  | .null, _ => (spelling_spell .null).laid
  | .bool value, _ => (spelling_spell (.bool value)).laid
  | .number integer?, _ => (spelling_spell (.number integer?)).laid
  | .string text?, _ => (spelling_spell (.string text?)).laid
  | .array items, depth => by
      rw [print, tokens]
      exact laid_enclose blank _ _ (laid_printItems blank items (depth + 1))
  | .object members, depth => by
      rw [print, tokens]
      exact laid_enclose blank _ _ (laid_printMembers blank members (depth + 1))

theorem laid_printItems (blank : layout.Blank) :
    ∀ (items : List Json) (depth : Nat),
      List.Forall₂ Laid (printItems layout depth items) (itemTokens items)
  | [], _ => .nil
  | item :: items, depth => by
      rw [printItems, itemTokens]
      exact .cons (laid_print blank item depth) (laid_printItems blank items depth)

theorem laid_printMembers (blank : layout.Blank) :
    ∀ (members : List (Text × Json)) (depth : Nat),
      List.Forall₂ Laid (printMembers layout depth members) (memberTokens members)
  | [], _ => .nil
  | (key, value) :: members, depth => by
      rw [printMembers, memberTokens]
      exact .cons ((laid_print blank value depth).member blank key)
        (laid_printMembers blank members depth)

end

/-- What a value is printed as is one of its texts. -/
theorem denotes_print (blank : layout.Blank) (depth : Nat) (value : Json) :
    Denotes (String.ofList (value.print layout depth)) value := by
  rw [Denotes, String.toList_ofList]
  exact laid_print blank value depth

/-- A printed value is read as itself, in every layout that adds blanks only. -/
theorem parse?_print (blank : layout.Blank) (depth : Nat) (value : Json) :
    parse? (String.ofList (value.print layout depth)) = some value :=
  parse?_eq_some_iff.mpr (denotes_print blank depth value)

/-- The compact layout adds nothing. -/
theorem blank_compact : Layout.compact.Blank where
  gap := by simp [Layout.compact]
  space := by simp [Layout.compact]

/-- The other layout adds newlines and spaces. -/
theorem blank_pretty : Layout.pretty.Blank where
  gap := by
    intro depth c among
    simp only [Layout.pretty, List.mem_cons, List.mem_replicate] at among
    rcases among with rfl | ⟨-, rfl⟩
    · rfl
    · rfl
  space := by simp [Layout.pretty, isBlank]

theorem parse?_compact (value : Json) : parse? value.compact = some value :=
  parse?_print blank_compact 0 value

theorem parse?_pretty (value : Json) : parse? value.pretty = some value :=
  parse?_print blank_pretty 0 value

end MergedMining.Json
