/-
Module: MergedMining.Proofs.JsonLexemes
Purpose: A lexeme in any of its spellings is scanned as that lexeme, wherever it stands.
Trusted boundary: none
Main exports: Json.scanFrom_cons, Json.EndsNumber, Json.scanFrom_numberText, Json.Draft.put,
  Json.text?_put, Json.scanFrom_spelling, Json.Severed, Json.scan_laid
-/
import Mathlib.Data.List.Chain
import MergedMining.Json.Scan
import MergedMining.Proofs.JsonGrammar

/-!
Every lexeme but a number ends by itself.  A number goes on as long as it can, so it is scanned as
itself only in front of a character that no number goes on with, or at the end of the text.  In a
text whose numbers stand apart that is what comes behind each of them.

The characters of a string are put down in front of those before them, so the draft of a string is
its text backwards, with what may still become a surrogate pair.
-/

namespace MergedMining.Json

variable {mode next : Mode} {completed : List Token} {rest : List Char}

/-- One more character. -/
theorem scanFrom_cons {c : Char} {tokens : List Token}
    (step : mode.step c = some (tokens, next)) :
    scanFrom mode completed (c :: rest) = scanFrom next (tokens.reverse ++ completed) rest := by
  rw [scanFrom, step]

/-! ## Numbers -/

/-- No number goes on with the first character, if there is one. -/
def EndsNumber (rest : List Char) : Prop :=
  ∀ c, rest.head? = some c → c.isDigit = false ∧ c ≠ '.' ∧ c ≠ 'e' ∧ c ≠ 'E'

theorem endsNumber_nil : EndsNumber [] := by
  intro c first
  cases first

/-- A number ends before every character that is no digit, point or exponent mark. -/
theorem endsNumber_cons {c : Char}
    (other : c.isDigit = false ∧ c ≠ '.' ∧ c ≠ 'e' ∧ c ≠ 'E') : EndsNumber (c :: rest) := by
  intro d first
  cases first
  exact other

theorem digit?_of_not_isDigit {c : Char} (other : c.isDigit = false) : digit? c = none := by
  simp [digit?, other]

/-- A number that could end is completed by a character that does not continue it. -/
theorem step_of_number? {number : Token} (known : mode.number? = some number) {c : Char}
    (other : c.isDigit = false ∧ c ≠ '.' ∧ c ≠ 'e' ∧ c ≠ 'E') :
    mode.step c = mode.complete c := by
  obtain ⟨noDigit, noPoint, noLower, noUpper⟩ := other
  cases mode with
  | zero negative => simp [Mode.step, noDigit, noPoint, noLower, noUpper]
  | integer negative value =>
      simp [Mode.step, digit?_of_not_isDigit noDigit, noPoint, noLower, noUpper]
  | fraction => simp [Mode.step, noDigit, noLower, noUpper]
  | exponent => simp [Mode.step, noDigit]
  | _ => cases known

/-- A number that could end does so, and what follows is scanned as if nothing were under way. -/
theorem scanFrom_of_number? {number : Token} (known : mode.number? = some number)
    (ends : EndsNumber rest) :
    scanFrom mode completed rest = scanFrom .between (number :: completed) rest := by
  cases rest with
  | nil =>
      have last : mode.finish = some [number] := by
        cases mode with
        | between => cases known
        | _ => simp only [Mode.finish, known, Option.map_some]
      rw [scanFrom, last]
      rfl
  | cons c rest =>
      have step : mode.step c = mode.complete c := step_of_number? known (ends c rfl)
      rw [scanFrom, scanFrom, step, Mode.complete, known]
      simp only [Mode.step, Option.bind_eq_bind, Option.bind_some]
      cases Mode.begin c with
      | none => rfl
      | some found => simp

/-- A digit is read as the number that it was printed for. -/
theorem digit?_digitChar : ∀ n < 10, digit? n.digitChar = some n := by decide

/-- A further digit is appended to the digits so far. -/
theorem step_integer_digitChar {negative : Bool} {value n : Nat} (decimal : n < 10) :
    Mode.step (.integer negative value) n.digitChar =
      some ([], .integer negative (10 * value + n)) := by
  simp only [Mode.step, digit?_digitChar n decimal]

/-- The decimal digits of a positive number, from a mode which takes the first of them. -/
theorem scanFrom_toDigits {negative : Bool}
    (first : ∀ n < 10, 0 < n → mode.step n.digitChar = some ([], .integer negative n))
    (n : Nat) (positive : 0 < n) (rest : List Char) :
    scanFrom mode completed (Nat.toDigits 10 n ++ rest) =
      scanFrom (.integer negative n) completed rest := by
  induction n using Nat.strongRecOn generalizing rest with
  | ind n ih =>
      by_cases single : n < 10
      · rw [Nat.toDigits_of_lt_base single]
        exact scanFrom_cons (first n single positive)
      · have smaller : n / 10 < n := Nat.div_lt_self positive (by decide)
        have left : 0 < n / 10 := Nat.div_pos (Nat.not_lt.mp single) (by decide)
        -- the digits before the last one are those of the quotient
        rw [Nat.toDigits_of_base_le (by decide) (Nat.not_lt.mp single), List.append_assoc,
          ih (n / 10) smaller left, List.singleton_append,
          scanFrom_cons (step_integer_digitChar (Nat.mod_lt n (by decide))), Nat.div_add_mod]
        rfl

theorem step_between_digitChar :
    ∀ n < 10, 0 < n → Mode.step .between n.digitChar = some ([], .integer false n) := by
  decide

theorem step_minus_digitChar :
    ∀ n < 10, 0 < n → Mode.step .minus n.digitChar = some ([], .integer true n) := by
  decide

/-- The mode after the sign and the integer part of a number. -/
def integerMode (negative : Bool) (n : Nat) : Mode :=
  if n = 0 then .zero negative else .integer negative n

/-- The scan comes out of the integer part of a number with its sign and its value. -/
theorem scanFrom_integerPart (negative : Bool) (n : Nat) (rest : List Char) :
    scanFrom .between completed (signText negative ++ (Nat.toDigits 10 n ++ rest)) =
      scanFrom (integerMode negative n) completed rest := by
  cases negative with
  | false =>
      by_cases zero : n = 0
      · subst zero
        rfl
      · rw [integerMode, if_neg zero]
        exact scanFrom_toDigits step_between_digitChar n (Nat.pos_of_ne_zero zero) rest
  | true =>
      by_cases zero : n = 0
      · subst zero
        rfl
      · have signed : Mode.step .between '-' = some ([], .minus) := rfl
        rw [integerMode, if_neg zero, signText, if_pos rfl, List.singleton_append,
          scanFrom_cons signed]
        exact scanFrom_toDigits step_minus_digitChar n (Nat.pos_of_ne_zero zero) rest

/-- An integer is written as its sign and its absolute value. -/
theorem integerText_eq (n : Int) :
    integerText n = signText (n < 0) ++ Nat.toDigits 10 n.natAbs := by
  by_cases negative : n < 0 <;> simp [integerText, signText, negative]

/-- Behind its integer part a number may end, as that integer. -/
theorem number?_integerMode (n : Int) :
    (integerMode (n < 0) n.natAbs).number? = some (.number (some n)) := by
  by_cases zero : n = 0
  · subst zero
    rfl
  · have value : (if n < 0 then -(n.natAbs : Int) else n.natAbs) = n := by omega
    have absolute : n.natAbs ≠ 0 := Int.natAbs_ne_zero.mpr zero
    simp only [integerMode, absolute, if_false, Mode.number?, decide_eq_true_eq, value]

/-- Digits, from a mode which takes the first of them to one that takes them all. -/
theorem scanFrom_digits {digits : List Char} (some : Digits digits)
    (first : ∀ c, c.isDigit = true → mode.step c = .some ([], next))
    (others : ∀ c, c.isDigit = true → next.step c = .some ([], next)) :
    scanFrom mode completed (digits ++ rest) = scanFrom next completed rest := by
  have onward : ∀ digits : List Char, (∀ c ∈ digits, c.isDigit = true) →
      scanFrom next completed (digits ++ rest) = scanFrom next completed rest := by
    intro digits decimal
    induction digits with
    | nil => rfl
    | cons c digits ih =>
        obtain ⟨head, tail⟩ := List.forall_mem_cons.mp decimal
        rw [List.cons_append, scanFrom_cons (others c head)]
        exact ih tail
  cases digits with
  | nil => exact absurd rfl some.nonempty
  | cons c digits =>
      obtain ⟨head, tail⟩ := List.forall_mem_cons.mp some.decimal
      rw [List.cons_append, scanFrom_cons (first c head)]
      exact onward digits tail

/-- A fraction may follow any integer part. -/
theorem step_integerMode_point (negative : Bool) (n : Nat) :
    (integerMode negative n).step '.' = some ([], .point) := by
  by_cases zero : n = 0
  · rw [integerMode, if_pos zero]
    rfl
  · rw [integerMode, if_neg zero]
    rfl

/-- So may an exponent, without a fraction before it. -/
theorem step_integerMode_mark (negative : Bool) (n : Nat) {mark : Char}
    (marked : mark = 'e' ∨ mark = 'E') :
    (integerMode negative n).step mark = some ([], .exponentMark) := by
  by_cases zero : n = 0
  · rw [integerMode, if_pos zero]
    rcases marked with rfl | rfl
    · rfl
    · rfl
  · rw [integerMode, if_neg zero]
    rcases marked with rfl | rfl
    · rfl
    · rfl

theorem step_fraction_mark {mark : Char} (marked : mark = 'e' ∨ mark = 'E') :
    Mode.step .fraction mark = some ([], .exponentMark) := by
  rcases marked with rfl | rfl
  · rfl
  · rfl

/-- Of a fraction nothing is kept, however long it is. -/
theorem scanFrom_fraction {digits : List Char} (some : Digits digits)
    (pointed : mode.step '.' = .some ([], .point)) :
    scanFrom mode completed ('.' :: (digits ++ rest)) = scanFrom .fraction completed rest := by
  rw [scanFrom_cons pointed]
  apply scanFrom_digits some
  · intro c digit
    simp only [Mode.step, digit, if_true]
  · intro c digit
    simp only [Mode.step, digit, if_true]

/-- Of an exponent nothing is kept either, with whichever mark and sign it is written. -/
theorem scanFrom_exponent {mark : Char} {sign digits : List Char}
    (marked : mode.step mark = .some ([], .exponentMark))
    (signed : sign = [] ∨ sign = ['+'] ∨ sign = ['-']) (some : Digits digits) :
    scanFrom mode completed (mark :: (sign ++ digits ++ rest)) =
      scanFrom .exponent completed rest := by
  have others : ∀ c : Char, c.isDigit = true → Mode.step .exponent c = .some ([], .exponent) := by
    intro c digit
    simp only [Mode.step, digit, if_true]
  have behindSign : scanFrom .exponentSign completed (digits ++ rest) =
      scanFrom .exponent completed rest := by
    apply scanFrom_digits some _ others
    intro c digit
    simp only [Mode.step, digit, if_true]
  rw [scanFrom_cons marked]
  rcases signed with rfl | rfl | rfl
  · apply scanFrom_digits some _ others
    intro c digit
    have notSign : ¬ (c = '+' ∨ c = '-') := by
      rintro (rfl | rfl)
      · cases digit
      · cases digit
    simp only [Mode.step, notSign, digit, if_true, if_false]
  · exact behindSign
  · exact behindSign

/-- A number in any of its spellings, in front of what no number goes on with. -/
theorem scanFrom_numberText {text : List Char} {integer? : Option Int}
    (number : NumberText text integer?) (ends : EndsNumber rest) :
    scanFrom .between completed (text ++ rest) =
      scanFrom .between (.number integer? :: completed) rest := by
  cases number with
  | integer n =>
      rw [integerText_eq, List.append_assoc, scanFrom_integerPart]
      exact scanFrom_of_number? (number?_integerMode n) ends
  | negativeZero =>
      have known : (integerMode true 0).number? = some (.number none) := rfl
      exact (scanFrom_integerPart true 0 rest).trans (scanFrom_of_number? known ends)
  | @other negative n fraction exponent behind last notBoth =>
      rw [List.append_assoc, List.append_assoc, List.append_assoc, scanFrom_integerPart]
      cases behind with
      | absent =>
          cases last with
          | absent => simp at notBoth
          | present marked signed some =>
              rw [List.nil_append, List.cons_append,
                scanFrom_exponent (step_integerMode_mark negative n marked) signed some]
              exact scanFrom_of_number? rfl ends
      | present digits =>
          rw [List.cons_append, scanFrom_fraction digits (step_integerMode_point negative n)]
          cases last with
          | absent => exact scanFrom_of_number? rfl ends
          | present marked signed some =>
              rw [List.cons_append, scanFrom_exponent (step_fraction_mark marked) signed some]
              exact scanFrom_of_number? rfl ends

/-! ## Strings -/

/-- Hexadecimal digits of both cases are read as what they count. -/
theorem hexDigit?_eq_some {c : Char} {value : Nat} (digit : HexDigit c value) :
    hexDigit? c = some value := by
  have either : ∀ n < 16, hexDigit? n.digitChar = some n ∧
      hexDigit? n.digitChar.toUpper = some n := by decide
  rcases digit.written with lower | upper
  · rw [lower]
    exact (either value digit.small).1
  · rw [upper]
    exact (either value digit.small).2

/-- Each escape letter is read as its character, and none of them announces a unit. -/
theorem unescape?_eq_some {letter c : Char} (meant : (letter, c) ∈ escapes) :
    unescape? letter = some c ∧ letter ≠ 'u' := by
  have all : ∀ pair ∈ escapes, unescape? pair.1 = some pair.2 ∧ pair.1 ≠ 'u' := by decide
  exact all _ meant

/-- The draft of a string with one more piece. -/
def Draft.put (draft : Draft) : Piece → Draft
  | .char c => draft.push c
  | .unit n => draft.pushUnit n

/-- Digits of a unit, of which one more and `missing` others are yet to come. -/
theorem scanFrom_hexNumber {draft : Draft} {digits : List Char} {value : Nat}
    (number : HexNumber digits value) (missing : Nat) (rest : List Char) :
    scanFrom (.unit draft (digits.length + missing) 0) completed (digits ++ rest) =
      scanFrom (.unit draft missing value) completed rest := by
  induction number generalizing missing rest with
  | nil => rw [List.length_nil, Nat.zero_add, List.nil_append]
  | @snoc digits value digit c before last ih =>
      have step : Mode.step (.unit draft (missing + 1) value) c =
          some ([], .unit draft missing (16 * value + digit)) := by
        simp only [Mode.step, hexDigit?_eq_some last, Option.map_some]
      rw [List.length_append, List.length_singleton, Nat.add_assoc, Nat.add_comm 1,
        List.append_assoc, ih, List.singleton_append, scanFrom_cons step]
      rfl

/-- A piece is put down, whatever it takes to write it. -/
theorem scanFrom_pieceText {draft : Draft} {piece : Piece} {text : List Char}
    (spelled : PieceText piece text) :
    scanFrom (.string draft) completed (text ++ rest) =
      scanFrom (.string (draft.put piece)) completed rest := by
  have begun : Mode.step (.string draft) '\\' = some ([], .escape draft) := rfl
  cases spelled with
  | @plain c notEnd notEscape visible =>
      have step : Mode.step (.string draft) c = some ([], .string (draft.push c)) := by
        simp only [Mode.step, notEnd, notEscape, visible, if_false]
      exact scanFrom_cons step
  | @escape letter c meant =>
      obtain ⟨meant, notUnit⟩ := unescape?_eq_some meant
      have ended : Mode.step (.escape draft) letter = some ([], .string (draft.push c)) := by
        simp only [Mode.step, notUnit, if_false, meant, Option.map_some]
      rw [List.cons_append, scanFrom_cons begun]
      exact scanFrom_cons ended
  | unit hexadecimal width =>
      have opened : Mode.step (.escape draft) 'u' = some ([], .unit draft 3 0) := rfl
      rw [List.cons_append, scanFrom_cons begun, List.cons_append, scanFrom_cons opened]
      cases hexadecimal with
      | nil => cases width
      | @snoc digits value digit c before last =>
          have three : digits.length = 3 := by simpa using width
          have ended : Mode.step (.unit draft 0 value) c =
              some ([], .string (draft.pushUnit (16 * value + digit))) := by
            simp only [Mode.step, hexDigit?_eq_some last, Option.map_some]
          have read : scanFrom (.unit draft (digits.length + 0) 0) completed (digits ++ c :: rest) =
              scanFrom (.unit draft 0 value) completed (c :: rest) :=
            scanFrom_hexNumber before 0 (c :: rest)
          rw [three] at read
          rw [List.append_assoc, List.singleton_append]
          exact read.trans (scanFrom_cons ended)

/-- What stands in a string is put into the draft, piece by piece. -/
theorem scanFrom_pieces {draft : Draft} {pieces : List Piece} {texts : List (List Char)}
    (spelled : List.Forall₂ PieceText pieces texts) :
    scanFrom (.string draft) completed (texts.flatten ++ rest) =
      scanFrom (.string (pieces.foldl Draft.put draft)) completed rest := by
  induction spelled generalizing draft with
  | nil => rfl
  | cons first _ ih =>
      rw [List.flatten_cons, List.append_assoc, scanFrom_pieceText first, ih, List.foldl_cons]

/-- A draft without characters does not get any. -/
theorem chars_put {draft : Draft} (lost : draft.chars = none) (piece : Piece) :
    (draft.put piece).chars = none := by
  rcases draft with ⟨chars, leading⟩
  cases lost
  cases piece with
  | char c => cases leading <;> rfl
  | unit n =>
      cases leading <;> simp only [Draft.put, Draft.pushUnit, Draft.push, Option.map_none] <;>
        split_ifs <;> rfl

/-- A string in which a surrogate stands alone has no text, whatever follows. -/
theorem text?_put_lost {draft : Draft} (lost : draft.chars = none) (pieces : List Piece) :
    (pieces.foldl Draft.put draft).text? = none := by
  induction pieces generalizing draft with
  | nil =>
      rcases draft with ⟨chars, leading⟩
      cases lost
      cases leading <;> rfl
  | cons piece pieces ih => exact ih (chars_put lost piece)

/-- What the characters of a string become behind those that were put down before. -/
def textBehind (chars : List Char) (found : Option (List Char)) : Text :=
  found.map fun later => String.ofList (chars.reverse ++ later)

theorem textBehind_map (c : Char) (chars : List Char) (found : Option (List Char)) :
    textBehind chars (found.map (c :: ·)) = textBehind (c :: chars) found := by
  cases found with
  | none => rfl
  | some later => simp [textBehind]

/-- The induction is on the pieces to come, with and without half of a pair that waits for them. -/
theorem text?_put_pieces (pieces : List Piece) :
    (∀ chars, (pieces.foldl Draft.put ⟨some chars, none⟩).text? =
      textBehind chars (characters? pieces)) ∧
    ∀ chars unit, 0xd800 ≤ unit ∧ unit < 0xdc00 →
      (pieces.foldl Draft.put ⟨some chars, some unit⟩).text? =
        textBehind chars (characters? (.unit unit :: pieces)) := by
  induction pieces with
  | nil =>
      constructor
      · intro chars
        simp [Draft.text?, characters?, textBehind]
      · intro chars unit leading
        simp [Draft.text?, characters?, textBehind, leading]
  | cons piece pieces ih =>
      obtain ⟨plain, waiting⟩ := ih
      have broken : (pieces.foldl Draft.put .broken).text? = none := text?_put_lost rfl pieces
      cases piece with
      | char c =>
          constructor
          · intro chars
            rw [characters?, textBehind_map, ← plain]
            rfl
          · intro chars unit leading
            have lone : characters? (.unit unit :: .char c :: pieces) = none := by
              simp [characters?, leading]
            rw [lone]
            exact broken
      | unit n =>
          constructor
          · intro chars
            by_cases leading : 0xd800 ≤ n ∧ n < 0xdc00
            · rw [← waiting chars n leading, List.foldl_cons, Draft.put, Draft.pushUnit]
              simp only [leading, if_true, and_self]
            · rw [characters?.eq_def]
              simp only [List.foldl_cons, Draft.put, Draft.pushUnit, leading, if_false]
              by_cases trailing : 0xdc00 ≤ n ∧ n < 0xe000
              · simp only [trailing, and_self, if_true, broken]
                rfl
              · simp only [trailing, if_false, textBehind_map, ← plain]
                rfl
          · intro chars unit leading
            rw [characters?, if_pos leading]
            simp only [List.foldl_cons, Draft.put, Draft.pushUnit]
            by_cases trailing : 0xdc00 ≤ n ∧ n < 0xe000
            · simp only [trailing, and_self, if_true, textBehind_map, ← plain]
              rfl
            · simp only [trailing, if_false, broken]
              rfl

/-- The draft of all pieces of a string gives its text. -/
theorem text?_put (pieces : List Piece) :
    (pieces.foldl Draft.put .empty).text? = textOf pieces :=
  (text?_put_pieces pieces).1 []

/-! ## Lexemes -/

/-- A spelled lexeme is scanned as itself; a number needs to end where its spelling does. -/
theorem scanFrom_spelling {token : Token} {spelled : List Char} (spelling : Spelling token spelled)
    (ends : ∀ integer?, token = .number integer? → EndsNumber rest) :
    scanFrom .between completed (spelled ++ rest) =
      scanFrom .between (token :: completed) rest := by
  cases spelling with
  | fixed fixed =>
      cases token with
      | bool value =>
          cases value with
          | true => rfl
          | false => rfl
      | number => exact fixed.elim
      | string => exact fixed.elim
      | _ => rfl
  | number number => exact scanFrom_numberText number (ends _ rfl)
  | @string pieces texts spelled =>
      calc
        scanFrom .between completed ('\"' :: texts.flatten ++ ['\"'] ++ rest)
            = scanFrom (.string .empty) completed (texts.flatten ++ ('\"' :: rest)) := by
              rw [List.append_assoc, List.cons_append]
              rfl
        _ = scanFrom (.string (pieces.foldl Draft.put .empty)) completed ('\"' :: rest) :=
              scanFrom_pieces spelled
        _ = scanFrom .between (.string (pieces.foldl Draft.put .empty).text? :: completed) rest :=
              rfl
        _ = scanFrom .between (.string (textOf pieces) :: completed) rest := by rw [text?_put]

/-! ## Texts -/

/-- The lexemes are not both numbers. -/
def Apart : Token → Token → Prop
  | .number _, .number _ => False
  | _, _ => True

/-- No number comes right behind a number. -/
def Severed (tokens : List Token) : Prop := tokens.IsChain Apart

theorem not_isDigit_of_isBlank {c : Char} (blank : isBlank c = true) :
    c.isDigit = false ∧ c ≠ '.' ∧ c ≠ 'e' ∧ c ≠ 'E' := by
  simp only [isBlank, Bool.or_eq_true, beq_iff_eq] at blank
  rcases blank with ((rfl | rfl) | rfl) | rfl
  all_goals decide

/-- Only a number begins with what a number goes on with. -/
theorem endsNumber_spelling {token : Token} {spelled : List Char}
    (spelling : Spelling token spelled) (notNumber : ∀ integer?, token ≠ .number integer?) :
    EndsNumber (spelled ++ rest) := by
  cases spelling with
  | fixed fixed =>
      cases token with
      | bool value =>
          cases value with
          | true => exact endsNumber_cons (by decide)
          | false => exact endsNumber_cons (by decide)
      | number => exact fixed.elim
      | string => exact fixed.elim
      | _ => exact endsNumber_cons (by decide)
  | number => exact absurd rfl (notNumber _)
  | string => exact endsNumber_cons (by decide)

/-- A text that does not begin with a number ends a number before it. -/
theorem endsNumber_laid {text : List Char} {tokens : List Token} (laid : Laid text tokens)
    (notNumber : ∀ integer?, tokens.head? ≠ some (.number integer?)) : EndsNumber text := by
  cases laid with
  | nil => exact endsNumber_nil
  | blank blank => exact endsNumber_cons (not_isDigit_of_isBlank blank)
  | lexeme spelling =>
      apply endsNumber_spelling spelling
      intro integer? same
      exact notNumber integer? (congrArg some same)

/-- A text is scanned as the lexemes that it consists of. -/
theorem scanFrom_laid {text : List Char} {tokens : List Token} (laid : Laid text tokens)
    (severed : Severed tokens) (completed : List Token) :
    scanFrom .between completed text = some (completed.reverse ++ tokens) := by
  induction laid generalizing completed with
  | nil => simp [scanFrom, Mode.finish]
  | @blank c text tokens blank _ ih =>
      have step : Mode.step .between c = some ([], .between) := by
        simp only [Mode.step, Mode.begin, blank, if_true]
      rw [scanFrom_cons step]
      exact ih severed completed
  | @lexeme token spelled text tokens spelling laid ih =>
      obtain ⟨apart, others⟩ := List.isChain_cons.mp severed
      have ends : ∀ integer?, token = .number integer? → EndsNumber text := by
        intro integer? number
        subst number
        exact endsNumber_laid laid fun other first => apart (.number other) first
      rw [scanFrom_spelling spelling ends, ih others, List.reverse_cons, List.append_assoc]
      rfl

/-- A text of severed lexemes is scanned to them, blanks and spellings aside. -/
theorem scan_laid {text : List Char} {tokens : List Token} (laid : Laid text tokens)
    (severed : Severed tokens) : scan text = some tokens :=
  scanFrom_laid laid severed []

end MergedMining.Json
