/-
Module: MergedMining.Proofs.JsonScans
Purpose: What is scanned consists of the lexemes that the scan finds.
Trusted boundary: none
Main exports: Json.Pending, Json.Reached, Json.Pending.step, Json.laid_of_scan
-/
import MergedMining.Proofs.JsonLexemes

/-!
The mode of the scan says how much has been read of which lexeme.  One character may complete that
lexeme, or continue it, or both end it and begin another; whichever it does, the characters so far
are the lexemes found and what has been read of the one under way.  At the end of the text nothing
may be under way but a number that can end there.
-/

namespace MergedMining.Json

/-! ## Characters -/

/-- Facts about the characters below a bound are checked one by one. -/
theorem forall_char_of_lt (property : Char → Prop) {bound : Nat}
    (all : ∀ n < bound, property (Char.ofNat n)) {c : Char} (small : c.toNat < bound) :
    property c := by
  have found := all c.toNat small
  rwa [Char.ofNat_toNat] at found

theorem toNat_lt_of_isDigit {c : Char} (digit : c.isDigit = true) : c.toNat < 58 := by
  simp only [Char.isDigit, Bool.and_eq_true, decide_eq_true_eq, UInt32.le_iff_toNat_le] at digit
  exact Nat.lt_succ_of_le digit.2

/-- Only the ten digits are read as digits. -/
theorem digitChar_of_digit? {c : Char} {n : Nat} (digit : digit? c = some n) :
    n < 10 ∧ c = n.digitChar := by
  by_cases decimal : c.isDigit = true
  · have all : ∀ k < 58, ∀ n ∈ digit? (Char.ofNat k), n < 10 ∧ Char.ofNat k = n.digitChar := by
      decide
    exact forall_char_of_lt (fun c => ∀ n ∈ digit? c, n < 10 ∧ c = n.digitChar) all
      (toNat_lt_of_isDigit decimal) n digit
  · simp [digit?, decimal] at digit

/-- Only digits of the two cases are read as hexadecimal digits, as seen of each character in
turn. -/
theorem hexDigit_of_hexDigit? {c : Char} {n : Nat} (digit : hexDigit? c = some n) :
    HexDigit c n := by
  by_cases small : c.toNat < 103
  · have all : ∀ k < 103, ∀ n ∈ hexDigit? (Char.ofNat k),
        n < 16 ∧ (Char.ofNat k = n.digitChar ∨ Char.ofNat k = n.digitChar.toUpper) := by
      decide
    obtain ⟨small, written⟩ := forall_char_of_lt
      (fun c => ∀ n ∈ hexDigit? c, n < 16 ∧ (c = n.digitChar ∨ c = n.digitChar.toUpper))
      all small n digit
    exact ⟨small, written⟩
  · have notDecimal : ¬ c.isDigit = true := fun decimal =>
      small (Nat.lt_trans (toNat_lt_of_isDigit decimal) (by decide))
    have notLower : ¬ ('a' ≤ c ∧ c ≤ 'f') := fun lower => small (Nat.lt_succ_of_le lower.2)
    have notUpper : ¬ ('A' ≤ c ∧ c ≤ 'F') := fun upper =>
      small (Nat.lt_of_le_of_lt upper.2 (by decide))
    rw [hexDigit?, if_neg notDecimal, if_neg notLower, if_neg notUpper] at digit
    cases digit

/-- Only the eight letters of the grammar escape a character. -/
theorem mem_escapes_of_unescape? {letter c : Char} (meant : unescape? letter = some c) :
    (letter, c) ∈ escapes := by
  unfold unescape? at meant
  split at meant
  case h_9 => cases meant
  all_goals
    cases meant
    decide

/-! ## The lexeme under way -/

/-- What has been read of the lexeme under way. -/
inductive Pending : Mode → List Char → Prop where
  | between : Pending .between []
  | word {next : Char} {others read : List Char} {token : Token} (fixed : token.Fixed)
      (spelled : token.spell = read ++ next :: others) : Pending (.word next others token) read
  | string {pieces : List Piece} {texts : List (List Char)}
      (spelled : List.Forall₂ PieceText pieces texts) :
      Pending (.string (pieces.foldl Draft.put .empty)) ('\"' :: texts.flatten)
  | escape {pieces : List Piece} {texts : List (List Char)}
      (spelled : List.Forall₂ PieceText pieces texts) :
      Pending (.escape (pieces.foldl Draft.put .empty)) ('\"' :: texts.flatten ++ ['\\'])
  | unit {pieces : List Piece} {texts : List (List Char)} {digits : List Char}
      {missing value : Nat} (spelled : List.Forall₂ PieceText pieces texts)
      (hexadecimal : HexNumber digits value) (width : digits.length + missing = 3) :
      Pending (.unit (pieces.foldl Draft.put .empty) missing value)
        ('\"' :: texts.flatten ++ '\\' :: 'u' :: digits)
  | minus : Pending .minus ['-']
  | zero (negative : Bool) : Pending (.zero negative) (signText negative ++ ['0'])
  | integer (negative : Bool) {n : Nat} (positive : 0 < n) :
      Pending (.integer negative n) (signText negative ++ Nat.toDigits 10 n)
  | point (negative : Bool) (n : Nat) :
      Pending .point (signText negative ++ Nat.toDigits 10 n ++ ['.'])
  | fraction (negative : Bool) (n : Nat) {digits : List Char} (some : Digits digits) :
      Pending .fraction (signText negative ++ Nat.toDigits 10 n ++ '.' :: digits)
  | exponentMark (negative : Bool) (n : Nat) {fraction : List Char} {mark : Char}
      (behind : Fraction fraction) (marked : mark = 'e' ∨ mark = 'E') :
      Pending .exponentMark (signText negative ++ Nat.toDigits 10 n ++ fraction ++ [mark])
  | exponentSign (negative : Bool) (n : Nat) {fraction : List Char} {mark sign : Char}
      (behind : Fraction fraction) (marked : mark = 'e' ∨ mark = 'E')
      (signed : sign = '+' ∨ sign = '-') :
      Pending .exponentSign (signText negative ++ Nat.toDigits 10 n ++ fraction ++ [mark, sign])
  | exponent (negative : Bool) (n : Nat) {fraction digits sign : List Char} {mark : Char}
      (behind : Fraction fraction) (marked : mark = 'e' ∨ mark = 'E')
      (signed : sign = [] ∨ sign = ['+'] ∨ sign = ['-']) (some : Digits digits) :
      Pending .exponent
        (signText negative ++ Nat.toDigits 10 n ++ fraction ++ mark :: (sign ++ digits))

/-- The text consists of these lexemes and of what has been read of the next one. -/
def Reached (text : List Char) (found : List Token) (mode : Mode) : Prop :=
  ∃ done read, text = done ++ read ∧ Laid done found ∧ Pending mode read

variable {mode next : Mode} {read : List Char} {c : Char}

theorem Pending.reached (pending : Pending mode read) : Reached read [] mode :=
  ⟨[], read, rfl, .nil, pending⟩

/-- Between two lexemes nothing is under way. -/
theorem Laid.reached {text : List Char} {found : List Token} (laid : Laid text found) :
    Reached text found .between :=
  ⟨text, [], (List.append_nil text).symm, laid, .between⟩

theorem reached_fixed {token : Token} {text : List Char} (fixed : token.Fixed)
    (spelled : token.spell = text) : Reached text [token] .between := by
  subst spelled
  exact (Spelling.fixed fixed).laid.reached

/-- Lexemes found before stay before what is reached afterwards. -/
theorem Laid.reached_append {done text : List Char} {found tokens : List Token}
    (laid : Laid done found) (reached : Reached text tokens mode) :
    Reached (done ++ text) (found ++ tokens) mode := by
  obtain ⟨more, read, rfl, others, pending⟩ := reached
  exact ⟨done ++ more, read, (List.append_assoc ..).symm, laid.append others, pending⟩

/-! ## Numbers -/

theorem Digits.single {c : Char} (digit : c.isDigit = true) : Digits [c] := by
  constructor
  · simp
  · simpa using digit

/-- Digits with one more behind them are digits. -/
theorem Digits.snoc {digits : List Char} (some : Digits digits) (digit : c.isDigit = true) :
    Digits (digits ++ [c]) := by
  constructor
  · simp
  · intro d among
    rcases List.mem_append.mp among with earlier | last
    · exact some.decimal d earlier
    · rw [List.mem_singleton.mp last]
      exact digit

/-- The decimal digits of a number, the last of which counts one. -/
theorem toDigits_snoc {n digit : Nat} (positive : 0 < n) (decimal : digit < 10) :
    Nat.toDigits 10 (10 * n + digit) = Nat.toDigits 10 n ++ [digit.digitChar] := by
  have front : (10 * n + digit) / 10 = n := by omega
  have last : (10 * n + digit) % 10 = digit := by omega
  rw [Nat.toDigits_of_base_le (by decide) (by omega), front, last]

/-- A first digit that is not zero begins an integer of one digit. -/
theorem Pending.firstDigit (negative : Bool) {n : Nat} (digit : digit? c = some n)
    (notZero : c ≠ '0') : Pending (.integer negative n) (signText negative ++ [c]) := by
  obtain ⟨decimal, written⟩ := digitChar_of_digit? digit
  have positive : 0 < n := by
    apply Nat.pos_of_ne_zero
    rintro rfl
    exact notZero written
  have pending := Pending.integer negative positive
  rwa [Nat.toDigits_of_lt_base decimal, ← written] at pending

/-- A further digit makes the integer ten times as great, and is added. -/
theorem Pending.nextDigit (negative : Bool) {n digit : Nat} (positive : 0 < n)
    (known : digit? c = some digit) :
    Pending (.integer negative (10 * n + digit))
      (signText negative ++ Nat.toDigits 10 n ++ [c]) := by
  obtain ⟨decimal, written⟩ := digitChar_of_digit? known
  have longer : 0 < 10 * n + digit := by omega
  have pending := Pending.integer negative longer
  rwa [toDigits_snoc positive decimal, ← written, ← List.append_assoc] at pending

/-- An exponent may follow an integer without a fraction. -/
theorem Pending.wholeMark (negative : Bool) (n : Nat) (marked : c = 'e' ∨ c = 'E') :
    Pending .exponentMark (signText negative ++ Nat.toDigits 10 n ++ [c]) := by
  have pending := Pending.exponentMark negative n .absent marked
  rwa [List.append_nil] at pending

/-- A number that can end where it does has been read in one of its spellings. -/
theorem Pending.spelling {number : Token} (pending : Pending mode read)
    (known : mode.number? = some number) : Spelling number read := by
  cases pending with
  | zero negative =>
      cases negative with
      | false =>
          cases known
          exact .number (.integer 0)
      | true =>
          cases known
          exact .number .negativeZero
  | @integer negative n positive =>
      cases known
      have same : signText negative ++ Nat.toDigits 10 n =
          integerText (if negative then -(n : Int) else n) := by
        cases negative with
        | false => simp [integerText_eq, signText]
        | true =>
            have below : -(n : Int) < 0 := by omega
            simp [integerText_eq, signText, positive]
      rw [same]
      exact .number (.integer _)
  | @fraction negative n digits some =>
      cases known
      have text : NumberText (signText negative ++ Nat.toDigits 10 n ++ '.' :: digits ++ []) none :=
        .other (.present some) .absent (.inl (by simp))
      rw [List.append_nil] at text
      exact .number text
  | exponent negative n behind marked signed digits =>
      cases known
      exact .number (.other behind (.present marked signed digits) (.inr (by simp)))
  | _ => cases known

/-! ## One more character -/

/-- Where no lexeme is under way, a character is a blank, a lexeme, or the beginning of one. -/
theorem reached_begin {tokens : List Token} (begun : Mode.begin c = some (tokens, next)) :
    Reached [c] tokens next := by
  unfold Mode.begin at begun
  split at begun
  case isTrue blank =>
    cases begun
    exact (Laid.blank blank .nil).reached
  case isFalse =>
    -- the brackets, the colon and the comma come last; they are lexemes by themselves
    split at begun
    case h_13 notZero =>
      obtain ⟨value, digit, same⟩ := Option.map_eq_some_iff.mp begun
      cases same
      exact (Pending.firstDigit false digit notZero).reached
    case h_7 =>
      cases begun
      exact (@Pending.string [] [] .nil).reached
    case h_8 =>
      cases begun
      have pending : Pending (.word 'u' ['l', 'l'] .null) ['n'] := .word trivial rfl
      exact pending.reached
    case h_9 =>
      cases begun
      have pending : Pending (.word 'r' ['u', 'e'] (.bool true)) ['t'] := .word trivial rfl
      exact pending.reached
    case h_10 =>
      cases begun
      have pending : Pending (.word 'a' ['l', 's', 'e'] (.bool false)) ['f'] :=
        .word trivial rfl
      exact pending.reached
    case h_11 =>
      cases begun
      exact Pending.minus.reached
    case h_12 =>
      cases begun
      exact (Pending.zero false).reached
    all_goals
      cases begun
      exact reached_fixed trivial rfl

/-- A character that does not continue a number ends it and begins what comes next. -/
theorem Pending.complete {tokens : List Token} (pending : Pending mode read)
    (completed : mode.complete c = some (tokens, next)) : Reached (read ++ [c]) tokens next := by
  simp only [Mode.complete, Option.bind_eq_bind, Option.bind_eq_some_iff] at completed
  obtain ⟨number, known, ⟨others, after⟩, begun, same⟩ := completed
  cases same
  exact (pending.spelling known).laid.reached_append (reached_begin begun)

/-! ### In a word -/

/-- A character inside a fixed word is its next letter, and the last letter makes the word. -/
theorem Pending.stepWord {expected : Char} {others : List Char} {token : Token}
    {tokens : List Token} (fixed : token.Fixed) (spelled : token.spell = read ++ expected :: others)
    (step : (Mode.word expected others token).step c = some (tokens, next)) :
    Reached (read ++ [c]) tokens next := by
  simp only [Mode.step] at step
  split_ifs at step with same
  subst same
  cases others with
  | nil =>
      cases step
      exact reached_fixed fixed spelled
  | cons later others =>
      cases step
      rw [List.append_cons] at spelled
      exact (Pending.word fixed spelled).reached

/-! ### In a string -/

section Strings

variable {pieces : List Piece} {texts : List (List Char)} {tokens : List Token}
  (spelled : List.Forall₂ PieceText pieces texts)
include spelled

/-- A piece of a string has been read to its end. -/
theorem Pending.snoc {piece : Piece} {text : List Char} (last : PieceText piece text) :
    Pending (.string ((pieces.foldl Draft.put .empty).put piece))
      ('\"' :: texts.flatten ++ text) := by
  have pending := Pending.string (List.rel_append spelled (.cons last .nil))
  rw [List.foldl_append, List.flatten_append, List.flatten_singleton] at pending
  exact pending

/-- A character inside a string ends it, begins an escape, or stands for itself. -/
theorem Pending.stepString
    (step : (Mode.string (pieces.foldl Draft.put .empty)).step c = some (tokens, next)) :
    Reached ('\"' :: texts.flatten ++ [c]) tokens next := by
  simp only [Mode.step] at step
  split_ifs at step with ends escapes control
  · cases step
    subst ends
    rw [text?_put]
    exact (Spelling.string spelled).laid.reached
  · cases step
    subst escapes
    exact (Pending.escape spelled).reached
  · cases step
    exact (Pending.snoc spelled (.plain ends escapes control)).reached

/-- A character behind a backslash begins an escaped unit or is a short escape. -/
theorem Pending.stepEscape
    (step : (Mode.escape (pieces.foldl Draft.put .empty)).step c = some (tokens, next)) :
    Reached ('\"' :: texts.flatten ++ ['\\'] ++ [c]) tokens next := by
  rw [List.append_assoc]
  simp only [Mode.step] at step
  split_ifs at step with unit
  · cases step
    subst unit
    exact (Pending.unit spelled .nil rfl).reached
  · obtain ⟨meant, known, same⟩ := Option.map_eq_some_iff.mp step
    cases same
    exact (Pending.snoc spelled (.escape (mem_escapes_of_unescape? known))).reached

/-- A character inside an escaped unit is its next digit, and the fourth digit ends the unit. -/
theorem Pending.stepUnit {digits : List Char} {missing value : Nat}
    (hexadecimal : HexNumber digits value) (width : digits.length + missing = 3)
    (step : (Mode.unit (pieces.foldl Draft.put .empty) missing value).step c =
      some (tokens, next)) :
    Reached ('\"' :: texts.flatten ++ '\\' :: 'u' :: digits ++ [c]) tokens next := by
  rw [List.append_assoc, List.cons_append, List.cons_append]
  obtain ⟨digit, known, same⟩ := Option.map_eq_some_iff.mp step
  have more := hexadecimal.snoc (hexDigit_of_hexDigit? known)
  cases missing with
  | zero =>
      cases same
      have four : (digits ++ [c]).length = 4 := by simpa using width
      exact (Pending.snoc spelled (.unit more four)).reached
  | succ missing =>
      cases same
      have three : (digits ++ [c]).length + missing = 3 := by
        simp only [List.length_append, List.length_singleton]
        omega
      exact (Pending.unit spelled more three).reached

end Strings

/-! ### In a number -/

section Numbers

variable {tokens : List Token} (negative : Bool)

/-- A character behind a minus sign begins the integer part. -/
theorem Pending.stepMinus (step : Mode.minus.step c = some (tokens, next)) :
    Reached (['-'] ++ [c]) tokens next := by
  simp only [Mode.step] at step
  split_ifs at step with zero
  · cases step
    subst zero
    exact (Pending.zero true).reached
  · obtain ⟨value, digit, same⟩ := Option.map_eq_some_iff.mp step
    cases same
    exact (Pending.firstDigit true digit zero).reached

/-- No digit may follow an integer part that is zero. -/
theorem Pending.stepZero (step : (Mode.zero negative).step c = some (tokens, next)) :
    Reached (signText negative ++ ['0'] ++ [c]) tokens next := by
  simp only [Mode.step] at step
  split_ifs at step with digit point mark
  · cases step
    subst point
    exact (Pending.point negative 0).reached
  · cases step
    exact (Pending.wholeMark negative 0 mark).reached
  · exact (Pending.zero negative).complete step

/-- A character in the integer part is a digit of it, or what may follow the part. -/
theorem Pending.stepInteger {n : Nat} (positive : 0 < n)
    (step : (Mode.integer negative n).step c = some (tokens, next)) :
    Reached (signText negative ++ Nat.toDigits 10 n ++ [c]) tokens next := by
  simp only [Mode.step] at step
  split at step
  case h_1 digit known =>
    cases step
    exact (Pending.nextDigit negative positive known).reached
  case h_2 =>
    split_ifs at step with point mark
    · cases step
      subst point
      exact (Pending.point negative n).reached
    · cases step
      exact (Pending.wholeMark negative n mark).reached
    · exact (Pending.integer negative positive).complete step

variable (n : Nat)

/-- A digit must follow the point. -/
theorem Pending.stepPoint (step : Mode.point.step c = some (tokens, next)) :
    Reached (signText negative ++ Nat.toDigits 10 n ++ ['.'] ++ [c]) tokens next := by
  simp only [Mode.step] at step
  split_ifs at step with digit
  cases step
  rw [List.append_assoc]
  exact (Pending.fraction negative n (.single digit)).reached

/-- A character in the fraction is a digit of it, or what may follow it. -/
theorem Pending.stepFraction {digits : List Char} (some : Digits digits)
    (step : Mode.fraction.step c = .some (tokens, next)) :
    Reached (signText negative ++ Nat.toDigits 10 n ++ '.' :: digits ++ [c]) tokens next := by
  simp only [Mode.step] at step
  split_ifs at step with digit mark
  · cases step
    rw [List.append_assoc]
    exact (Pending.fraction negative n (some.snoc digit)).reached
  · cases step
    exact (Pending.exponentMark negative n (.present some) mark).reached
  · exact (Pending.fraction negative n some).complete step

section Exponents

variable {fraction : List Char} {mark : Char} (behind : Fraction fraction)
  (marked : mark = 'e' ∨ mark = 'E')
include behind marked

/-- A sign or a digit must follow the letter of an exponent. -/
theorem Pending.stepExponentMark (step : Mode.exponentMark.step c = some (tokens, next)) :
    Reached (signText negative ++ Nat.toDigits 10 n ++ fraction ++ [mark] ++ [c]) tokens next := by
  simp only [Mode.step] at step
  rw [List.append_assoc]
  split_ifs at step with sign digit
  · cases step
    exact (Pending.exponentSign negative n behind marked sign).reached
  · cases step
    exact (Pending.exponent negative n behind marked (.inl rfl) (.single digit)).reached

/-- A digit must follow the sign of an exponent. -/
theorem Pending.stepExponentSign {sign : Char} (signed : sign = '+' ∨ sign = '-')
    (step : Mode.exponentSign.step c = some (tokens, next)) :
    Reached (signText negative ++ Nat.toDigits 10 n ++ fraction ++ [mark, sign] ++ [c])
      tokens next := by
  simp only [Mode.step] at step
  rw [List.append_assoc]
  split_ifs at step with digit
  cases step
  have written : [sign] = [] ∨ [sign] = ['+'] ∨ [sign] = ['-'] := by simpa using signed
  exact (Pending.exponent negative n behind marked written (.single digit)).reached

/-- A character in an exponent is a digit of it, or what may follow a number. -/
theorem Pending.stepExponent {digits sign : List Char}
    (signed : sign = [] ∨ sign = ['+'] ∨ sign = ['-']) (some : Digits digits)
    (step : Mode.exponent.step c = .some (tokens, next)) :
    Reached (signText negative ++ Nat.toDigits 10 n ++ fraction ++ mark :: (sign ++ digits) ++ [c])
      tokens next := by
  simp only [Mode.step] at step
  split_ifs at step with digit
  · cases step
    rw [List.append_assoc, List.cons_append, List.append_assoc sign]
    exact (Pending.exponent negative n behind marked signed (some.snoc digit)).reached
  · exact (Pending.exponent negative n behind marked signed some).complete step

end Exponents

end Numbers

/-- Whatever a character does to the lexeme under way, nothing that was read is lost. -/
theorem Pending.step {tokens : List Token} (pending : Pending mode read)
    (step : mode.step c = some (tokens, next)) : Reached (read ++ [c]) tokens next := by
  cases pending with
  | between => exact reached_begin step
  | word fixed spelled => exact stepWord fixed spelled step
  | string spelled => exact stepString spelled step
  | escape spelled => exact stepEscape spelled step
  | unit spelled hexadecimal width => exact stepUnit spelled hexadecimal width step
  | minus => exact stepMinus step
  | zero negative => exact stepZero negative step
  | integer negative positive => exact stepInteger negative positive step
  | point negative n => exact stepPoint negative n step
  | fraction negative n digits => exact stepFraction negative n digits step
  | exponentMark negative n behind marked => exact stepExponentMark negative n behind marked step
  | exponentSign negative n behind marked signed =>
      exact stepExponentSign negative n behind marked signed step
  | exponent negative n behind marked signed digits =>
      exact stepExponent negative n behind marked signed digits step

/-! ## Texts -/

/-- One more character keeps what is known of the text so far: it may complete lexemes and leaves
one under way. -/
theorem Reached.step {text : List Char} {found tokens : List Token}
    (reached : Reached text found mode) (step : mode.step c = some (tokens, next)) :
    Reached (text ++ [c]) (found ++ tokens) next := by
  obtain ⟨done, read, rfl, laid, pending⟩ := reached
  rw [List.append_assoc]
  exact laid.reached_append (pending.step step)

/-- What is under way at the end of a text is a number that can end there, or nothing. -/
theorem Pending.finish {last : List Token} (pending : Pending mode read)
    (finish : mode.finish = some last) : Laid read last.reverse := by
  by_cases between : mode = .between
  · subst between
    cases pending
    cases finish
    exact .nil
  · have ends : mode.finish = mode.number?.map ([·]) := by
      cases mode with
      | between => exact absurd rfl between
      | _ => rfl
    rw [ends] at finish
    obtain ⟨number, known, rfl⟩ := Option.map_eq_some_iff.mp finish
    exact (pending.spelling known).laid

/-- A text that may end consists of the lexemes found, and of the last. -/
theorem Reached.finish {text : List Char} {found last : List Token}
    (reached : Reached text found mode) (finish : mode.finish = some last) :
    Laid text (found ++ last.reverse) := by
  obtain ⟨done, read, rfl, laid, pending⟩ := reached
  exact laid.append (pending.finish finish)

/-- The induction is on what is still to be scanned. -/
theorem laid_of_scanFrom {text rest : List Char} {completed tokens : List Token}
    (reached : Reached text completed.reverse mode)
    (scanned : scanFrom mode completed rest = some tokens) : Laid (text ++ rest) tokens := by
  induction rest generalizing text mode completed with
  | nil =>
      rw [scanFrom] at scanned
      obtain ⟨last, finish, rfl⟩ := Option.map_eq_some_iff.mp scanned
      rw [List.append_nil, List.reverse_append]
      exact reached.finish finish
  | cons c rest ih =>
      rw [scanFrom] at scanned
      cases step : mode.step c with
      | none => simp [step] at scanned
      | some found =>
          obtain ⟨others, next⟩ := found
          rw [step] at scanned
          have after := reached.step step
          rw [List.append_cons]
          apply ih _ scanned
          rwa [List.reverse_append, List.reverse_reverse]

/-- A text that can be scanned consists of the lexemes found in it. -/
theorem laid_of_scan {text : List Char} {tokens : List Token}
    (scanned : scan text = some tokens) : Laid text tokens := by
  have begun : Reached [] ([] : List Token).reverse .between := Pending.between.reached
  exact laid_of_scanFrom begun scanned

end MergedMining.Json
