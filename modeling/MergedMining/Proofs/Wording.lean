/-
Module: MergedMining.Proofs.Wording
Purpose: Rejections that differ are worded differently, whatever texts and numbers they carry.
Trusted boundary: none
Main exports: Wording.run_append_inj, Wording.append_digits_inj, Wording.index_unique,
  Wire.DecodeError.message_inj, Rejection.message_inj, Rejection.wording_tells_apart
-/
import MergedMining.Rejection

/-!
A wording is put together from fixed words, numbers in decimal and, in places, a text that may be
anything.  A number ends where its digits end, so next to words without a digit there it is
recovered.

A decode error may begin with anything, namely with the name of what was counted, but it closes with
words of its kind and the digits behind them, if any.  A rejection may end with anything, but it
opens with words of its kind.  No such words close, or open, those of another kind, so a wording
tells its kind; with these words taken away, the rest tells the numbers and texts.
-/

namespace MergedMining

namespace Wording

variable {digits otherDigits front otherFront back otherBack : List Char}

/-! ## Numbers in a text -/

/-- A row of digits, which may be empty. -/
def Decimal (text : List Char) : Prop := ∀ c ∈ text, c.isDigit = true

/-- The text does not begin with a digit. -/
def StartsPlain (text : List Char) : Prop := ∀ c, text.head? = some c → c.isDigit = false

theorem decimal_toDigits (n : Nat) : Decimal (Nat.toDigits 10 n) := by
  intro c digit
  exact Nat.isDigit_of_mem_toDigits (by decide) (by decide) digit

theorem decimal_nil : Decimal [] := by
  intro c digit
  cases digit

/-- Numbers are told by their decimal digits. -/
theorem toDigits_inj {n m : Nat} (same : Nat.toDigits 10 n = Nat.toDigits 10 m) : n = m := by
  rw [← @Nat.ofDigitChars_ten_toDigits n, same, Nat.ofDigitChars_ten_toDigits]

/-- Words that do not begin with a digit end a number before them. -/
theorem startsPlain_append {text : List Char} {c : Char} (first : text.head? = some c)
    (other : c.isDigit = false) (back : List Char) : StartsPlain (text ++ back) := by
  intro d head
  rw [List.head?_append, first, Option.some_or] at head
  cases head
  exact other

theorem takeWhile_append_of_ends {kind : Char → Bool} (within : ∀ c ∈ front, kind c = true)
    (ends : ∀ c, back.head? = some c → kind c = false) :
    (front ++ back).takeWhile kind = front := by
  have none : back.takeWhile kind = [] := by
    cases back with
    | nil => rfl
    | cons c back =>
        have other : ¬ kind c = true := by simp [ends c rfl]
        exact List.takeWhile_cons_of_neg other
  rw [List.takeWhile_append_of_pos within, none, List.append_nil]

/-- A run of characters of one kind ends where it is followed by another kind. -/
theorem run_append_inj {kind : Char → Bool} (within : ∀ c ∈ front, kind c = true)
    (otherWithin : ∀ c ∈ otherFront, kind c = true)
    (ends : ∀ c, back.head? = some c → kind c = false)
    (otherEnds : ∀ c, otherBack.head? = some c → kind c = false)
    (same : front ++ back = otherFront ++ otherBack) : front = otherFront ∧ back = otherBack := by
  have first : front = otherFront := by
    rw [← takeWhile_append_of_ends within ends, same,
      takeWhile_append_of_ends otherWithin otherEnds]
  rw [first] at same
  exact ⟨first, List.append_cancel_left same⟩

/-- Digits end where they are followed by something else. -/
theorem digits_append_inj (decimal : Decimal digits) (otherDecimal : Decimal otherDigits)
    (plain : StartsPlain back) (otherPlain : StartsPlain otherBack)
    (same : digits ++ back = otherDigits ++ otherBack) :
    digits = otherDigits ∧ back = otherBack :=
  run_append_inj decimal otherDecimal plain otherPlain same

/-- Digits begin where they follow something else, as is seen by reading backwards. -/
theorem append_digits_inj (decimal : Decimal digits) (otherDecimal : Decimal otherDigits)
    (plain : StartsPlain front.reverse) (otherPlain : StartsPlain otherFront.reverse)
    (same : front ++ digits = otherFront ++ otherDigits) :
    front = otherFront ∧ digits = otherDigits := by
  have backwards := congrArg List.reverse same
  rw [List.reverse_append, List.reverse_append] at backwards
  have reversed : ∀ {text : List Char}, Decimal text → Decimal text.reverse :=
    fun decimal c digit => decimal c (List.mem_reverse.mp digit)
  obtain ⟨sameDigits, sameFront⟩ :=
    digits_append_inj (reversed decimal) (reversed otherDecimal) plain otherPlain backwards
  exact ⟨List.reverse_inj.mp sameFront, List.reverse_inj.mp sameDigits⟩

/-- A number ends where its digits do, and what follows is the rest. -/
theorem number_append_inj {n m : Nat} (plain : StartsPlain back)
    (otherPlain : StartsPlain otherBack)
    (same : Nat.toDigits 10 n ++ back = Nat.toDigits 10 m ++ otherBack) :
    n = m ∧ back = otherBack := by
  obtain ⟨number, behind⟩ :=
    digits_append_inj (decimal_toDigits n) (decimal_toDigits m) plain otherPlain same
  exact ⟨toDigits_inj number, behind⟩

/-- Two numbers with words between them. -/
theorem numbers_inj {n m n' m' : Nat} {words : List Char}
    (plain : ∀ back, StartsPlain (words ++ back))
    (same : Nat.toDigits 10 n ++ (words ++ Nat.toDigits 10 m) =
      Nat.toDigits 10 n' ++ (words ++ Nat.toDigits 10 m')) :
    n = n' ∧ m = m' := by
  obtain ⟨first, behind⟩ := number_append_inj (plain _) (plain _) same
  exact ⟨first, toDigits_inj (List.append_cancel_left behind)⟩

/-! ## Words of a kind -/

/-- In a table of words of which no two are related, related words stand in one place. -/
theorem index_unique {α : Type} {Related : α → α → Prop} {table : List α}
    (apart : table.Pairwise fun one other => ¬ (Related one other ∨ Related other one))
    {i j : Nat} {one other : α} (first : table[i]? = some one) (second : table[j]? = some other)
    (related : Related one other ∨ Related other one) : i = j := by
  obtain ⟨inside, rfl⟩ := List.getElem?_eq_some_iff.mp first
  obtain ⟨inside', rfl⟩ := List.getElem?_eq_some_iff.mp second
  have pairs := List.pairwise_iff_getElem.mp apart
  rcases Nat.lt_trichotomy i j with before | same | behind
  · exact absurd related (pairs i j inside inside' before)
  · exact same
  · exact absurd related.symm (pairs j i inside' inside behind)

end Wording

open Wording

/-! ## Decode errors, by how they close -/

namespace Wire.DecodeError

/-- The last words of each kind of error, in the order of the kinds. -/
def closings : List String :=
  [" remaining", "non-canonical var-int at offset ", " exceeds maximum ",
    " is beyond message length "]

/-- The last words of an error. -/
def closing (error : DecodeError) : List Char := (closings.getD error.ctorIdx "").toList

/-- The digits behind the last words. -/
def lastDigits : DecodeError → List Char
  | .unexpectedEnd .. => []
  | .nonCanonicalVarInt offset => Nat.toDigits 10 offset
  | .oversizedCollection _ _ max => Nat.toDigits 10 max
  | .cursorOutOfRange _ length => Nat.toDigits 10 length

/-- What stands before the last words. -/
def front : DecodeError → List Char
  | .unexpectedEnd offset needed remaining =>
      "unexpected end of data at offset ".toList ++
        (Nat.toDigits 10 offset ++ (": needed ".toList ++
          (Nat.toDigits 10 needed ++ (" bytes, ".toList ++ Nat.toDigits 10 remaining))))
  | .nonCanonicalVarInt _ => []
  | .oversizedCollection what count _ =>
      what.toList ++ " count ".toList ++ Nat.toDigits 10 count
  | .cursorOutOfRange cursor _ => "cursor ".toList ++ Nat.toDigits 10 cursor

variable {error other : DecodeError}

/-- The message of a decode error: words with numbers in them, closing words and a last number. -/
theorem toList_message (error : DecodeError) :
    error.message.toList = error.front ++ error.closing ++ error.lastDigits := by
  cases error with
  | unexpectedEnd offset needed remaining =>
      show _ = _ ++ " remaining".toList ++ []
      dsimp only [message, front]
      simp only [toString, String.toList_append, Nat.toList_repr, List.append_assoc,
        List.append_nil]
  | nonCanonicalVarInt offset =>
      show _ = [] ++ "non-canonical var-int at offset ".toList ++ _
      dsimp only [message, lastDigits]
      simp only [toString, String.toList_append, Nat.toList_repr, List.nil_append]
  | oversizedCollection what count max =>
      show _ = _ ++ " exceeds maximum ".toList ++ _
      dsimp only [message, front, lastDigits]
      simp only [toString, String.toList_append, Nat.toList_repr, List.append_assoc]
  | cursorOutOfRange cursor length =>
      show _ = _ ++ " is beyond message length ".toList ++ _
      dsimp only [message, front, lastDigits]
      simp only [toString, String.toList_append, Nat.toList_repr, List.append_assoc]

theorem decimal_lastDigits (error : DecodeError) : Decimal error.lastDigits := by
  cases error with
  | unexpectedEnd => exact decimal_nil
  | nonCanonicalVarInt => exact decimal_toDigits _
  | oversizedCollection => exact decimal_toDigits _
  | cursorOutOfRange => exact decimal_toDigits _

/-- No two kinds of decode errors close with words of which one ends with the other. -/
theorem closings_apart :
    (closings.map String.toList).Pairwise fun one other => ¬ (one <:+ other ∨ other <:+ one) := by
  decide +kernel

/-- The closing words of an error are those of its kind. -/
theorem getElem?_closings (error : DecodeError) :
    (closings.map String.toList)[error.ctorIdx]? = some error.closing := by
  cases error with
  | _ => rfl

theorem isDigit_getLast?_closings :
    ∀ words ∈ closings.map String.toList, words.getLast?.map Char.isDigit = some false := by
  decide +kernel

theorem startsPlain_closing (error : DecodeError) (back : List Char) :
    StartsPlain (error.closing.reverse ++ back) := by
  have listed := List.mem_of_getElem? error.getElem?_closings
  obtain ⟨c, last, plain⟩ := Option.map_eq_some_iff.mp (isDigit_getLast?_closings _ listed)
  rw [← List.head?_reverse] at last
  exact startsPlain_append last plain back

/-- Behind the digits at its end, a wording tells the kind of error. -/
theorem ctorIdx_eq_of_message (same : error.message = other.message) :
    error.ctorIdx = other.ctorIdx ∧ error.front = other.front ∧
      error.lastDigits = other.lastDigits := by
  have texts : error.front ++ error.closing ++ error.lastDigits =
      other.front ++ other.closing ++ other.lastDigits := by
    rw [← toList_message, ← toList_message, same]
  have plain : ∀ error : DecodeError, StartsPlain (error.front ++ error.closing).reverse := by
    intro error
    rw [List.reverse_append]
    exact error.startsPlain_closing _
  obtain ⟨fronts, digits⟩ := append_digits_inj error.decimal_lastDigits other.decimal_lastDigits
    (plain error) (plain other) texts
  have closed : error.closing <:+ other.front ++ other.closing := ⟨error.front, fronts⟩
  have kind : error.ctorIdx = other.ctorIdx :=
    index_unique closings_apart error.getElem?_closings other.getElem?_closings
      (List.suffix_or_suffix_of_suffix closed (List.suffix_append _ _))
  have closing : error.closing = other.closing := by rw [DecodeError.closing, kind, closing]
  rw [closing] at fronts
  exact ⟨kind, List.append_cancel_right fronts, digits⟩

/-- A count behind a name that may be anything. -/
theorem counted_inj {what otherWhat words : List Char} {count otherCount : Nat}
    (plain : ∀ back, StartsPlain (words.reverse ++ back))
    (same : what ++ words ++ Nat.toDigits 10 count =
      otherWhat ++ words ++ Nat.toDigits 10 otherCount) :
    what = otherWhat ∧ count = otherCount := by
  have before : ∀ what : List Char, StartsPlain (what ++ words).reverse := by
    intro what
    rw [List.reverse_append]
    exact plain _
  obtain ⟨names, counts⟩ := append_digits_inj (decimal_toDigits count)
    (decimal_toDigits otherCount) (before what) (before otherWhat) same
  exact ⟨List.append_cancel_right names, toDigits_inj counts⟩

/-- A decode error is told by its message: its kind by the closing words, and then its numbers. -/
theorem message_inj (same : error.message = other.message) : error = other := by
  -- what is left are the numbers before the closing words and the one behind them
  obtain ⟨kind, fronts, digits⟩ := ctorIdx_eq_of_message same
  cases error with
  | unexpectedEnd offset needed remaining =>
      cases other with
      | unexpectedEnd =>
          obtain ⟨rfl, behind⟩ := number_append_inj (startsPlain_append (c := ':') rfl rfl _)
            (startsPlain_append (c := ':') rfl rfl _) (List.append_cancel_left fronts)
          obtain ⟨rfl, rfl⟩ := numbers_inj (startsPlain_append (c := ' ') rfl rfl)
            (List.append_cancel_left behind)
          rfl
      | _ => cases kind
  | nonCanonicalVarInt offset =>
      cases other with
      | nonCanonicalVarInt =>
          cases toDigits_inj digits
          rfl
      | _ => cases kind
  | oversizedCollection what count max =>
      cases other with
      | oversizedCollection =>
          obtain ⟨name, rfl⟩ := counted_inj (startsPlain_append (c := ' ') rfl rfl) fronts
          cases String.toList_inj.mp name
          cases toDigits_inj digits
          rfl
      | _ => cases kind
  | cursorOutOfRange cursor length =>
      cases other with
      | cursorOutOfRange =>
          cases toDigits_inj (List.append_cancel_left fronts)
          cases toDigits_inj digits
          rfl
      | _ => cases kind

end Wire.DecodeError

/-! ## Rejections, by how they open -/

namespace Rejection

/-- The first words of each kind of rejection, in the order of the kinds. -/
def openings : List String :=
  [ "Merged-mine block does not have the correct chain ID, current ID: ",
    "Merged-mine block aux POW parent has our chain ID: ",
    "Multiple merged mining headers in coinbase: first at offset ",
    "Parent coinbase transaction not an actual coinbase transaction (merged mining header at offset ",
    "Parent coinbase script does not contain a merged mining header",
    "Malformed AuxPoW: ",
    "Merged mining is not enabled on this network",
    "Merged-mine block at time ",
    "Decode error: ",
    "Hashing failed: ",
    "Invalid configuration: " ]

/-- The first words of a rejection. -/
def opening (rejection : Rejection) : List Char :=
  (openings.getD rejection.ctorIdx "").toList

/-- What stands behind the first words. -/
def detail : Rejection → List Char
  | .wrongChainId actual expected =>
      Nat.toDigits 10 actual.toNat ++ (" expected: ".toList ++ Nat.toDigits 10 expected.toNat)
  | .parentSharesChainId chainId => Nat.toDigits 10 chainId.toNat
  | .duplicateMarker first second =>
      Nat.toDigits 10 first ++ (", second at offset ".toList ++ Nat.toDigits 10 second)
  | .parentNotCoinbase offset => Nat.toDigits 10 offset ++ ")".toList
  | .missingMarker => []
  | .malformed reason => reason.toList
  | .disabled => []
  | .notStarted time start =>
      Nat.toDigits 10 time.toNat ++
        (" precedes merged mining start time ".toList ++ Nat.toDigits 10 start.toNat)
  | .decode error => error.message.toList
  | .hashing reason => reason.toList
  | .config reason => reason.toList

variable {rejection other : Rejection}

theorem toList_message (rejection : Rejection) :
    rejection.message.toList = rejection.opening ++ rejection.detail := by
  cases rejection with
  | missingMarker => exact (List.append_nil _).symm
  | disabled => exact (List.append_nil _).symm
  | _ =>
      dsimp only [message, opening, openings, detail]
      simp only [toString, String.toList_append, Nat.toList_repr, List.append_assoc]
      rfl

/-- No two kinds of rejections open with words of which one begins with the other. -/
theorem openings_apart :
    (openings.map String.toList).Pairwise fun one other => ¬ (one <+: other ∨ other <+: one) := by
  simp only [openings, List.map_cons, List.map_nil]
  -- as rows of characters, since a string would be decoded for each comparison
  repeat rw [String.toList_ofList]
  decide +kernel

theorem getElem?_openings (rejection : Rejection) :
    (openings.map String.toList)[rejection.ctorIdx]? = some rejection.opening := by
  cases rejection with
  | _ => rfl

/-- A wording tells the kind of rejection and what stands behind its first words. -/
theorem detail_eq_of_message (same : rejection.message = other.message) :
    rejection.ctorIdx = other.ctorIdx ∧ rejection.detail = other.detail := by
  have texts : rejection.opening ++ rejection.detail = other.opening ++ other.detail := by
    rw [← toList_message, ← toList_message, same]
  have opened : rejection.opening <+: other.opening ++ other.detail := ⟨_, texts⟩
  have kind : rejection.ctorIdx = other.ctorIdx :=
    index_unique openings_apart rejection.getElem?_openings other.getElem?_openings
      (List.prefix_or_prefix_of_prefix opened (List.prefix_append _ _))
  have opening : rejection.opening = other.opening := by rw [Rejection.opening, kind, opening]
  rw [opening] at texts
  exact ⟨kind, List.append_cancel_left texts⟩

/-- A rejection is told by its message: its kind by the opening words, and then the detail. -/
theorem message_inj (same : rejection.message = other.message) : rejection = other := by
  obtain ⟨kind, details⟩ := detail_eq_of_message same
  cases rejection with
  | wrongChainId actual expected =>
      cases other with
      | wrongChainId =>
          obtain ⟨first, second⟩ := numbers_inj (startsPlain_append (c := ' ') rfl rfl) details
          rw [UInt32.toNat_inj.mp first, UInt32.toNat_inj.mp second]
      | _ => cases kind
  | parentSharesChainId chainId =>
      cases other with
      | parentSharesChainId => rw [UInt32.toNat_inj.mp (toDigits_inj details)]
      | _ => cases kind
  | duplicateMarker first second =>
      cases other with
      | duplicateMarker =>
          obtain ⟨rfl, rfl⟩ := numbers_inj (startsPlain_append (c := ',') rfl rfl) details
          rfl
      | _ => cases kind
  | parentNotCoinbase offset =>
      cases other with
      | parentNotCoinbase => rw [toDigits_inj (List.append_cancel_right details)]
      | _ => cases kind
  | missingMarker =>
      cases other with
      | missingMarker => rfl
      | _ => cases kind
  | malformed reason =>
      cases other with
      | malformed => rw [String.toList_inj.mp details]
      | _ => cases kind
  | disabled =>
      cases other with
      | disabled => rfl
      | _ => cases kind
  | notStarted time start =>
      cases other with
      | notStarted =>
          obtain ⟨first, second⟩ := numbers_inj (startsPlain_append (c := ' ') rfl rfl) details
          rw [UInt64.toNat_inj.mp first, UInt64.toNat_inj.mp second]
      | _ => cases kind
  | decode error =>
      cases other with
      | decode => rw [Wire.DecodeError.message_inj (String.toList_inj.mp details)]
      | _ => cases kind
  | hashing reason =>
      cases other with
      | hashing => rw [String.toList_inj.mp details]
      | _ => cases kind
  | config reason =>
      cases other with
      | config => rw [String.toList_inj.mp details]
      | _ => cases kind

/-- No two failures are worded alike, neither two rejections nor two decode errors. -/
theorem wording_tells_apart :
    (∀ one other : Rejection, one.message = other.message ↔ one = other) ∧
      ∀ one other : Wire.DecodeError, one.message = other.message ↔ one = other := by
  constructor
  · intro one other
    exact ⟨message_inj, congrArg message⟩
  · intro one other
    exact ⟨Wire.DecodeError.message_inj, congrArg Wire.DecodeError.message⟩

end Rejection

end MergedMining
