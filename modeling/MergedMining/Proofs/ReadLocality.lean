/-
Module: MergedMining.Proofs.ReadLocality
Purpose: How the outcome of a read depends on the bytes before and after those that it takes.
Trusted boundary: none
Main exports: Wire.Growing, Wire.Growing.bind, Wire.Growing.startingAt_take,
  Wire.Growing.startingAt_append, Wire.Moves, Wire.Moves.bind, Wire.Moves.startingAt, Wire.Local
-/
import MergedMining.Proofs.ReadLaws
import MergedMining.Wire.CompactSize

/-!
A read is run on a message and on the same message with more bytes around it, and the two outcomes
are compared.

* More bytes at the end change nothing, unless the read ran out of bytes.  In that case the fault
  names a field which begins inside the message and ends past it, and which the longer message has
  in full if the read succeeds there.
* More bytes at the beginning move the offsets in the outcome by their number, and nothing else.

Both comparisons hold of fields of a fixed width and pass through `bind`, so they hold of every read
put together from such fields.
-/

namespace MergedMining.Wire

/-! ## Places and faults, with more bytes around the message -/

namespace Cursor

/-- The offset at which the message ends. -/
def limit (cursor : Cursor) : Nat := cursor.position + cursor.remaining

/-- The same place, with more bytes after the message. -/
def followedBy (cursor : Cursor) (back : Bytes) : Cursor :=
  { cursor with rest := cursor.rest ++ back }

/-- The same place, with `count` more bytes before the message. -/
def behind (cursor : Cursor) (count : Nat) : Cursor :=
  { cursor with position := count + cursor.position }

theorem position_le_limit (cursor : Cursor) : cursor.position ≤ cursor.limit :=
  Nat.le_add_right ..

end Cursor

namespace DecodeError

/-- No bytes after the message can make up for it. -/
inductive Lasting : DecodeError → Prop where
  | nonCanonical (offset : Nat) : Lasting (.nonCanonicalVarInt offset)
  | oversized (what : String) (count max : Nat) : Lasting (.oversizedCollection what count max)

/-- The same fault, with `count` more bytes before the message. -/
def behind (count : Nat) : DecodeError → DecodeError
  | .unexpectedEnd offset needed remaining => .unexpectedEnd (count + offset) needed remaining
  | .nonCanonicalVarInt offset => .nonCanonicalVarInt (count + offset)
  | .oversizedCollection what found max => .oversizedCollection what found max
  | .cursorOutOfRange cursor length => .cursorOutOfRange (count + cursor) (count + length)

end DecodeError

/-- What a read returns, with the cursor where it stopped. -/
abbrev Outcome (α : Type) := EStateM.Result DecodeError Cursor α

variable {α β γ δ : Type}

/-! ## More bytes at the end -/

/-- How the outcomes of a read compare that starts on a message and on the same message followed by
`back`. -/
inductive Prolonged (start : Cursor) (back : Bytes) : Outcome α → Outcome α → Prop where
  | done {value : α} {stop : Cursor} (onward : start.position ≤ stop.position)
      (sameEnd : stop.limit = start.limit) :
      Prolonged start back (.ok value stop) (.ok value (stop.followedBy back))
  | refused {error : DecodeError} {stop : Cursor} (lasting : error.Lasting)
      (onward : start.position ≤ stop.position) (sameEnd : stop.limit = start.limit) :
      Prolonged start back (.error error stop) (.error error (stop.followedBy back))
  /-- The field at `offset` is cut off by the end of the message. -/
  | starved {offset needed remaining : Nat} {stop : Cursor} {whole : Outcome α}
      (onward : start.position ≤ offset) (atEnd : offset + remaining = start.limit)
      (short : remaining < needed)
      (present : ∀ value after, whole = .ok value after → offset + needed ≤ after.position) :
      Prolonged start back (.error (.unexpectedEnd offset needed remaining) stop) whole

/-- More bytes at the end can only help a read that ran out of bytes. -/
def Growing (read : Read α) : Prop :=
  ∀ start back, Prolonged start back (read start) (read (start.followedBy back))

namespace Growing

variable {read : Read α} {next : α → Read β}

/-- A successful read stops where it started or later, in the same message. -/
theorem onward (growing : Growing read) {start stop : Cursor} {value : α}
    (accepted : read start = .ok value stop) :
    start.position ≤ stop.position ∧ stop.limit = start.limit := by
  have unchanged := growing start []
  rw [accepted] at unchanged
  generalize read (start.followedBy []) = outcome at unchanged
  cases unchanged with
  | done onward sameEnd => exact ⟨onward, sameEnd⟩

theorem pure (value : α) : Growing (Pure.pure value : Read α) :=
  fun _ _ => .done (Nat.le_refl _) rfl

/-- A fault that lasts is reported whatever follows. -/
theorem throw {error : DecodeError} (lasting : error.Lasting) :
    Growing (MonadExcept.throw error : Read α) :=
  fun _ _ => .refused lasting (Nat.le_refl _) rfl

theorem position : Growing Wire.position :=
  fun _ _ => .done (Nat.le_refl _) rfl

/-- Bytes that were there are there with more behind them, and those that were not may be. -/
theorem readExactly (count : Nat) : Growing (Wire.readExactly count) := by
  intro start back
  by_cases enough : count ≤ start.remaining
  · have enough' : count ≤ (start.followedBy back).remaining := by
      simp only [Cursor.remaining, Cursor.followedBy, List.length_append] at enough ⊢
      omega
    have same : (start.followedBy back).rest.take count = start.rest.take count :=
      List.take_append_of_le_length enough
    have after : (start.followedBy back).advance count =
        (start.advance count).followedBy back := by
      simp only [Cursor.advance, Cursor.followedBy, List.drop_append_of_le_length enough]
    rw [readExactly_of_enough enough, readExactly_of_enough enough', after]
    simp only [same]
    apply Prolonged.done
    · exact Nat.le_add_right ..
    · simp only [Cursor.limit, Cursor.position_advance, Cursor.remaining_advance]
      omega
  · rw [readExactly_of_short (Nat.not_le.mp enough)]
    apply Prolonged.starved
    · exact Nat.le_refl _
    · rfl
    · exact Nat.not_le.mp enough
    · intro bytes after accepted
      have passes := readExactly_eq_ok_iff.mp accepted
      rw [passes.position, bytes.property]
      exact Nat.le_refl _

/-- The second read starts where the first stopped, so a field that is cut off in the first is
present in the whole if the second succeeds, and one cut off in the second is present because the
second says so. -/
theorem bind (first : Growing read) (second : ∀ value, Growing (next value)) :
    Growing (read >>= next) := by
  intro start back
  have compared := first start back
  simp only [Bind.bind, EStateM.bind]
  generalize read start = short at compared
  generalize wholeEq : read (start.followedBy back) = whole at compared
  cases compared with
  | @done value stop onward sameEnd =>
      have continued := second value stop back
      show Prolonged start back (next value stop) (next value (stop.followedBy back))
      generalize next value stop = shortEnd at continued
      generalize next value (stop.followedBy back) = wholeEnd at continued
      cases continued with
      | done further sameEnd' =>
          exact .done (Nat.le_trans onward further) (sameEnd'.trans sameEnd)
      | refused lasting further sameEnd' =>
          exact .refused lasting (Nat.le_trans onward further) (sameEnd'.trans sameEnd)
      | starved further atEnd short present =>
          exact .starved (Nat.le_trans onward further) (atEnd.trans sameEnd) short present
  | refused lasting onward sameEnd => exact .refused lasting onward sameEnd
  | starved onward atEnd short present =>
      apply Prolonged.starved onward atEnd short
      intro value after accepted
      cases whole with
      | error error stop => cases accepted
      | ok middleValue middle =>
          -- the second read stops no earlier than the first, so behind the field as well
          have before := present middleValue middle rfl
          have further := ((second middleValue).onward accepted).1
          exact Nat.le_trans before further

/-- A message cut off inside the bytes that a read takes leaves the read short of a field. -/
theorem startingAt_take (growing : Growing read) {message : Bytes} {offset cut : Nat} {value : α}
    {stop : Cursor} (accepted : read ⟨offset, message.drop offset⟩ = .ok value stop)
    (inside : offset ≤ cut) (early : cut < stop.position) :
    ∃ place needed remaining,
      read.startingAt (message.take cut) offset =
          .error (.unexpectedEnd place needed remaining) ∧
        offset ≤ place ∧ place + remaining = cut ∧ remaining < needed ∧
          place + needed ≤ stop.position := by
  have bounded : cut ≤ message.length := by
    have most := stop.position_le_limit
    rw [(growing.onward accepted).2] at most
    simp only [Cursor.limit, Cursor.remaining, List.length_drop] at most
    omega
  have width : (message.take cut).length = cut := List.length_take_of_le bounded
  have endsAtCut : Cursor.limit ⟨offset, (message.take cut).drop offset⟩ = cut := by
    simp only [Cursor.limit, Cursor.remaining, List.length_drop, width]
    omega
  have whole : Cursor.followedBy ⟨offset, (message.take cut).drop offset⟩ (message.drop cut) =
      ⟨offset, message.drop offset⟩ := by
    have joined : (message.take cut).drop offset ++ message.drop cut = message.drop offset := by
      rw [← List.drop_append_of_le_length (by omega), List.take_append_drop]
    simp only [Cursor.followedBy, joined]
  have compared := growing ⟨offset, (message.take cut).drop offset⟩ (message.drop cut)
  rw [whole, accepted] at compared
  simp only [Read.startingAt, Cursor.start, width, inside, if_true]
  generalize read ⟨offset, (message.take cut).drop offset⟩ = outcome at compared
  cases compared with
  | @done _ shortStop _ sameEnd =>
      -- the whole message would have been read within the cut
      have within := shortStop.position_le_limit
      rw [sameEnd, endsAtCut] at within
      exact absurd within (Nat.not_le.mpr early)
  | @starved place needed remaining _ _ onward atEnd short present =>
      rw [endsAtCut] at atEnd
      exact ⟨place, needed, remaining, rfl, onward, atEnd, short, present value stop rfl⟩

/-- An outcome that more bytes cannot change. -/
inductive Settled : Except DecodeError α → Prop where
  | read (value : α) : Settled (.ok value)
  | refused {error : DecodeError} (lasting : error.Lasting) : Settled (.error error)

/-- What is settled of a message is settled of every longer one. -/
theorem startingAt_append (growing : Growing read) {message : Bytes} {offset : Nat}
    (settled : Settled (read.startingAt message offset)) (back : Bytes) :
    read.startingAt (message ++ back) offset = read.startingAt message offset := by
  by_cases inside : offset ≤ message.length
  · have longer : offset ≤ (message ++ back).length := by
      rw [List.length_append]
      exact Nat.le_add_right_of_le inside
    have dropped : (message ++ back).drop offset = message.drop offset ++ back :=
      List.drop_append_of_le_length inside
    have compared := growing ⟨offset, message.drop offset⟩ back
    simp only [Cursor.followedBy] at compared
    simp only [Read.startingAt, Cursor.start, inside, longer, dropped, if_true] at settled ⊢
    generalize read ⟨offset, message.drop offset⟩ = short at compared settled
    generalize read ⟨offset, message.drop offset ++ back⟩ = whole at compared
    cases compared with
    | done => rfl
    | refused => rfl
    | starved =>
        -- a want of bytes is not settled
        rcases settled with _ | lasting
        cases lasting
  · simp only [Read.startingAt, Cursor.start, inside, if_false] at settled
    rcases settled with _ | lasting
    cases lasting

end Growing

/-! ## More bytes at the beginning -/

/-- The outcome with its offsets counted from `count` bytes earlier. -/
def Outcome.behind (count : Nat) (shift : α → β) : Outcome α → Outcome β
  | .ok value stop => .ok (shift value) (stop.behind count)
  | .error error stop => .error (error.behind count) (stop.behind count)

/-- With `count` more bytes before the message, `moved` does what `read` does without them, and
returns the value that `shift` makes of the other. -/
def Moves (count : Nat) (shift : α → β) (read : Read α) (moved : Read β) : Prop :=
  ∀ start : Cursor, moved (start.behind count) = Outcome.behind count shift (read start)

namespace Moves

variable {count : Nat}

theorem pure (shift : α → β) (value : α) :
    Moves count shift (Pure.pure value) (Pure.pure (shift value)) :=
  fun _ => rfl

/-- Thrown at a later offset, a fault names the later offset. -/
theorem throw (shift : α → β) (error : DecodeError) :
    Moves count shift (MonadExcept.throw error) (MonadExcept.throw (error.behind count)) :=
  fun _ => rfl

/-- The offset reached is the only thing that a read sees of the bytes before it. -/
theorem position : Moves count (count + ·) Wire.position Wire.position :=
  fun _ => rfl

/-- Bytes are the same wherever they stand. -/
theorem readExactly (width : Nat) :
    Moves count id (Wire.readExactly width) (Wire.readExactly width) := by
  intro start
  by_cases enough : width ≤ start.remaining
  · have enough' : width ≤ (start.behind count).remaining := enough
    rw [readExactly_of_enough enough, readExactly_of_enough enough']
    simp only [Outcome.behind, id, Cursor.behind, Cursor.advance, Nat.add_assoc]
  · have short : (start.behind count).remaining < width := Nat.not_le.mp enough
    rw [readExactly_of_short short, readExactly_of_short (Nat.not_le.mp enough)]
    rfl

/-- Reads that move one after the other move together. -/
theorem bind {shift : α → β} {shift' : γ → δ} {read : Read α} {moved : Read β}
    {next : α → Read γ} {next' : β → Read δ} (first : Moves count shift read moved)
    (second : ∀ value, Moves count shift' (next value) (next' (shift value))) :
    Moves count shift' (read >>= next) (moved >>= next') := by
  intro start
  have compared := first start
  simp only [Bind.bind, EStateM.bind]
  rw [compared]
  cases read start with
  | ok value stop => exact second value stop
  | error error stop => rfl

/-- A read from an offset, with `front` put before the message. -/
theorem startingAt {front message : Bytes} {offset : Nat} {shift : α → β} {read : Read α}
    {moved : Read β} (moves : Moves front.length shift read moved) :
    moved.startingAt (front ++ message) (front.length + offset) =
      ((read.startingAt message offset).map shift).mapError (DecodeError.behind front.length) := by
  by_cases inside : offset ≤ message.length
  · have inside' : front.length + offset ≤ (front ++ message).length := by
      rw [List.length_append]
      exact Nat.add_le_add_left inside _
    have dropped : (front ++ message).drop (front.length + offset) = message.drop offset :=
      List.drop_length_add_append offset
    have compared := moves ⟨offset, message.drop offset⟩
    simp only [Cursor.behind] at compared
    simp only [Read.startingAt, Cursor.start, inside, inside', dropped, if_true, compared]
    cases read ⟨offset, message.drop offset⟩ with
    | ok value stop => rfl
    | error error stop => rfl
  · have outside : ¬ front.length + offset ≤ (front ++ message).length := by
      rw [List.length_append]
      omega
    simp only [Read.startingAt, Cursor.start, inside, outside, if_false]
    rw [List.length_append]
    rfl

end Moves

/-! ## Reads that depend on their own bytes only -/

/-- A read whose value has nothing to do with the place of its bytes or what stands around them. -/
structure Local (read : Read α) : Prop where
  growing : Growing read
  moves : ∀ count, Moves count id read read

namespace Local

theorem pure (value : α) : Local (Pure.pure value : Read α) :=
  ⟨.pure value, fun _ => .pure id value⟩

theorem readExactly (count : Nat) : Local (Wire.readExactly count) :=
  ⟨.readExactly count, fun _ => .readExactly count⟩

theorem bind {read : Read α} {next : α → Read β} (first : Local read)
    (second : ∀ value, Local (next value)) : Local (read >>= next) :=
  ⟨first.growing.bind fun value => (second value).growing,
    fun count => (first.moves count).bind fun value => (second value).moves count⟩

/-- Reading a value and making another of it. -/
theorem map {read : Read α} (first : Local read) (f : α → β) :
    Local (read >>= fun value => Pure.pure (f value)) :=
  first.bind fun value => .pure (f value)

end Local

theorem readBytes_local (count : Nat) : Local (readBytes count) := (Local.readExactly count).map _

theorem readNat_local (width : Nat) : Local (readNat width) := (readBytes_local width).map _

theorem readUInt8_local : Local readUInt8 := (readNat_local 1).map _

/-! ## Compact sizes

A compact size notes where it begins, for the fault that it may have.  So its two comparisons are
made apart, with the place as a number that moves along. -/

namespace CompactSize

/-- The body of a compact size is refused for good once it was seen to be too small for its
width. -/
theorem readBody_growing {start width least : Nat} : Growing (readBody start width least) := by
  apply (readNat_local width).growing.bind
  intro value
  by_cases short : value < least
  · rw [if_pos short]
    exact .throw (.nonCanonical start)
  · rw [if_neg short]
    exact .pure _

/-- A body that is refused is reported at the offset where the first byte stood, and this moves
along. -/
theorem readBody_moves {count start width least : Nat} :
    Moves count id (readBody start width least) (readBody (count + start) width least) := by
  apply ((readNat_local width).moves count).bind
  intro value
  by_cases short : value < least
  · simp only [id, if_pos short]
    exact .throw id _
  · simp only [id, if_neg short]
    exact .pure id _

/-- A property of reads that the four forms have is one of the read that chooses among them. -/
theorem read_growing : Growing read := by
  apply Growing.position.bind
  intro start
  apply readUInt8_local.growing.bind
  intro first
  by_cases eight : first = 0xff
  · rw [if_pos eight]
    exact readBody_growing
  · by_cases four : first = 0xfe
    · rw [if_neg eight, if_pos four]
      exact readBody_growing
    · by_cases two : first = 0xfd
      · rw [if_neg eight, if_neg four, if_pos two]
        exact readBody_growing
      · rw [if_neg eight, if_neg four, if_neg two]
        exact .pure _

theorem read_local : Local read := by
  refine ⟨read_growing, ?_⟩
  intro count
  apply Moves.position.bind
  intro start
  apply (readUInt8_local.moves count).bind
  intro first
  simp only [id]
  split
  · exact readBody_moves
  · split
    · exact readBody_moves
    · split
      · exact readBody_moves
      · exact .pure id _

end CompactSize

theorem readLength_local (what : String) (max : Nat) : Local (readLength what max) := by
  apply CompactSize.read_local.bind
  intro value
  dsimp only
  split
  · exact ⟨.throw (.oversized ..), fun _ => .throw id (.oversizedCollection ..)⟩
  · exact .pure _

/-- Neither the length nor the bytes depend on where they stand. -/
theorem readVarBytes_local (what : String) (max : Nat) : Local (readVarBytes what max) :=
  (readLength_local what max).bind readBytes_local

end MergedMining.Wire
