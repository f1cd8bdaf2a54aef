/-
Module: MergedMining.Proofs.ReadSessions
Purpose: A session of reads stays in its message and never goes back, whatever fails in it.
Trusted boundary: none
Main exports: Wire.Advances, Wire.Advances.fieldByField, Request.read_advances, Session.Within,
  Session.visited, Request.Fixed, Request.Fails, Request.read_eq_error_iff,
  Session.reading_keeps_its_place
-/
import MergedMining.Proofs.Diagnostics
import MergedMining.Proofs.HeaderCodec
import MergedMining.Session

/-!
A session goes on after a failure from where the failing read stopped, so the place of that stop
matters.  Whatever is asked for, it lies behind bytes of the message that have been passed over,
none of them twice.  Hence a place never leaves the message, and numbers of bytes that are asked for
are compared with what is left before anything is taken.

A field of a fixed width is taken in full or not begun.  What is counted fails in three steps: in
the first byte of the count, in the rest of it, or in what it counts.  The steps that were completed
stay passed over.
-/

namespace MergedMining

open Wire

namespace Wire

variable {α β : Type}

/-! ## Reads that only go forward -/

/-- The cursor where the read stopped. -/
def Outcome.stop : Outcome α → Cursor
  | .ok _ stop => stop
  | .error _ stop => stop

/-- Whether it succeeds or fails, the read stops behind bytes that it has passed over. -/
def Advances (read : Read α) : Prop :=
  ∀ start : Cursor, ∃ taken, start.Passes taken (Outcome.stop (read start))

namespace Advances

variable {read : Read α} {next : α → Read β}

theorem stays {start : Cursor} : ∃ taken, start.Passes taken start :=
  ⟨[], Cursor.passes_nil_iff.mpr rfl⟩

theorem pure (value : α) : Advances (Pure.pure value : Read α) := fun _ => stays

theorem throw (error : DecodeError) : Advances (MonadExcept.throw error : Read α) := fun _ => stays

/-- A read that goes on from another passes over the bytes of both. -/
theorem bind (first : Advances read) (second : ∀ value, Advances (next value)) :
    Advances (read >>= next) := by
  intro start
  obtain ⟨taken, passes⟩ := first start
  cases outcome : read start with
  | ok value middle =>
      rw [outcome] at passes
      obtain ⟨further, onward⟩ := second value middle
      rw [Read.bind_of_ok outcome]
      exact ⟨taken ++ further, Cursor.passes_append_iff.mpr ⟨middle, passes, onward⟩⟩
  | error error stop =>
      rw [outcome] at passes
      rw [Read.bind_eq_error_iff.mpr (.inl outcome)]
      exact ⟨taken, passes⟩

theorem map (first : Advances read) (f : α → β) : Advances (f <$> read) := by
  rw [map_eq_pure_bind]
  exact first.bind fun value => pure (f value)

theorem readExactly (count : Nat) : Advances (Wire.readExactly count) := by
  intro start
  cases outcome : Wire.readExactly count start with
  | ok bytes stop => exact ⟨bytes.val, readExactly_eq_ok_iff.mp outcome⟩
  | error error stop =>
      obtain ⟨-, -, rfl⟩ := readExactly_eq_error_iff.mp outcome
      exact stays

theorem readBytes (count : Nat) : Advances (Wire.readBytes count) :=
  (readExactly count).bind fun bytes => pure bytes.val

/-- Each way in which a compact size fails leaves the cursor where it was or further on. -/
theorem compactSize : Advances CompactSize.read := by
  intro start
  cases outcome : CompactSize.read start with
  | ok value stop => exact ⟨_, CompactSize.read_eq_ok_iff.mp outcome⟩
  | error error stop =>
      cases CompactSize.read_eq_error_iff.mp outcome with
      | empty => exact stays
      | cutShort _ marked => exact ⟨_, marked⟩
      | overlong _ _ spelled => exact ⟨_, spelled⟩

theorem readLength (what : String) (max : Nat) : Advances (Wire.readLength what max) := by
  apply compactSize.bind
  intro value
  dsimp only
  split
  · exact throw _
  · exact pure _

theorem readVarBytes (what : String) (max : Nat) : Advances (Wire.readVarBytes what max) :=
  (readLength what max).bind readBytes

/-- No read of a field goes back, so neither does the read of what the fields make up. -/
theorem fieldByField : FieldByField Advances where
  pure := pure
  bind := bind
  readExactly _ := readExactly _
  readLength _ := readLength _ _
  readVarBytes _ := readVarBytes _ _

end Advances

end Wire

/-- Whatever is asked for, the cursor does not go back, even if the read fails. -/
theorem Request.read_advances (request : Request) : Advances request.read := by
  have law := Advances.fieldByField
  cases request with
  | uint8 => exact ((law.readNat (by decide)).bind fun _ => .pure _).map _
  | uint16 => exact ((law.readNat (by decide)).bind fun _ => .pure _).map _
  | uint32 => exact law.readUInt32.map _
  | int32 => exact law.readInt32.map _
  | uint64 => exact ((law.readNat (by decide)).bind fun _ => .pure _).map _
  | int64 => exact law.readInt64.map _
  | compactSize => exact Advances.compactSize.map _
  | hash => exact law.readHash.map _
  | bytes count => exact (Advances.readBytes count).map _
  | length what max => exact (Advances.readLength what max).map _
  | varBytes what max => exact (Advances.readVarBytes what max).map _
  | header => exact law.blockHeader.map _
  | transaction => exact law.transaction.map _

/-! ## Sessions -/

namespace Session

variable {message : Bytes} {offset : Nat} {session : Session}

/-- A request moves the cursor of the session to where the read stopped, and nothing else. -/
theorem perform_ask_snd (session : Session) (request : Request) :
    (session.perform (.ask request)).2 =
      { session with cursor := Outcome.stop (request.read session.cursor) } := by
  simp only [perform]
  cases request.read session.cursor with
  | ok reading cursor => rfl
  | error error cursor => rfl

/-- A request that fails leaves the marks and moves the cursor to where the read stopped. -/
theorem perform_ask_eq_error_iff {request : Request} {error : DecodeError} {after : Session} :
    session.perform (.ask request) = (.error error, after) ↔
      ∃ stop, request.read session.cursor = .error error stop ∧
        after = { session with cursor := stop } := by
  simp only [perform]
  cases request.read session.cursor with
  | ok reading cursor => simp
  | error fault cursor => simp [eq_comm]

/-- The place of the session and all that it remembers are in the message. -/
structure Within (session : Session) (message : Bytes) (offset : Nat) : Prop where
  cursor : session.cursor.Within message offset
  marks : ∀ mark ∈ session.marks, mark.Within message offset

theorem start_eq_ok_iff :
    start message offset = .ok session ↔
      offset ≤ message.length ∧ session = ⟨⟨offset, message.drop offset⟩, []⟩ := by
  unfold start Cursor.start
  by_cases inside : offset ≤ message.length
  · simp [inside, Except.map, eq_comm]
  · simp [inside, Except.map]

/-- A session begins within its message. -/
theorem within_start (begun : start message offset = .ok session) :
    session.Within message offset := by
  obtain ⟨inside, rfl⟩ := start_eq_ok_iff.mp begun
  exact ⟨⟨Nat.le_refl offset, inside, rfl⟩, List.forall_mem_nil _⟩

/-- A step does not leave the message: reads advance in it, and marks are places in it. -/
theorem Within.perform (within : session.Within message offset) (step : Step) :
    (session.perform step).2.Within message offset := by
  cases step with
  | ask request =>
      obtain ⟨taken, passes⟩ := request.read_advances session.cursor
      rw [perform_ask_snd]
      exact ⟨within.cursor.passes passes, within.marks⟩
  | mark => exact ⟨within.cursor, List.forall_mem_cons.mpr ⟨within.cursor, within.marks⟩⟩
  | reset =>
      rcases session with ⟨cursor, marks⟩
      cases marks with
      | nil => exact within
      | cons mark marks =>
          -- the place returned to was in the message when it was marked
          obtain ⟨latest, earlier⟩ := List.forall_mem_cons.mp within.marks
          exact ⟨latest, earlier⟩

/-- The session before the first step and after each. -/
def visited (session : Session) (steps : List Step) : List Session :=
  session :: (session.run steps).map Prod.snd

theorem visited_cons (session : Session) (step : Step) (steps : List Step) :
    session.visited (step :: steps) = session :: (session.perform step).2.visited steps := rfl

/-- A session stays within its message, by induction on the steps. -/
theorem Within.visited (within : session.Within message offset) (steps : List Step) :
    ∀ later ∈ session.visited steps, later.Within message offset := by
  induction steps generalizing session with
  | nil =>
      intro later reached
      cases List.mem_singleton.mp reached
      exact within
  | cons step steps ih =>
      rw [visited_cons, List.forall_mem_cons]
      exact ⟨within, ih (within.perform step)⟩

/-- Asking never moves the cursor back, and only a reset does. -/
theorem position_le_perform_ask (session : Session) (request : Request) :
    session.cursor.position ≤ (session.perform (.ask request)).2.cursor.position := by
  obtain ⟨taken, passes⟩ := request.read_advances session.cursor
  rw [perform_ask_snd, passes.position]
  exact Nat.le_add_right ..

/-- Without a return to a marked place, a later place is never an earlier one. -/
theorem visited_pairwise (session : Session) (requests : List Request) :
    (session.visited (requests.map .ask)).Pairwise fun earlier later =>
      earlier.cursor.position ≤ later.cursor.position := by
  induction requests generalizing session with
  | nil => exact List.pairwise_singleton _ _
  | cons request requests ih =>
      have behind := ih (session.perform (.ask request)).2
      have step := session.position_le_perform_ask request
      rw [List.map_cons, visited_cons, List.pairwise_cons]
      refine ⟨?_, behind⟩
      rw [visited, List.forall_mem_cons]
      -- all later places are behind the second, and this is behind the first
      refine ⟨step, ?_⟩
      intro later reached
      exact Nat.le_trans step ((List.pairwise_cons.mp behind).1 later reached)

end Session

/-! ## Failures -/

namespace Request

variable {request : Request} {cursor stop : Cursor} {width passed : Nat} {error : DecodeError}

/-- The requests for a field of a fixed width. -/
inductive Fixed : Request → (width : Nat) → Prop where
  | uint8 : Fixed .uint8 1
  | uint16 : Fixed .uint16 2
  | uint32 : Fixed .uint32 4
  | int32 : Fixed .int32 4
  | uint64 : Fixed .uint64 8
  | int64 : Fixed .int64 8
  | hash : Fixed .hash 32
  | bytes (count : Nat) : Fixed (.bytes count) count

/-- What is wrong at the cursor with the field or the counted thing that is asked for, and how many
bytes have been passed over when this is found. -/
inductive Fails (cursor : Cursor) : Request → DecodeError → (passed : Nat) → Prop where
  | field {request : Request} {width : Nat} (fixed : request.Fixed width)
      (short : cursor.remaining < width) :
      Fails cursor request (.unexpectedEnd cursor.position width cursor.remaining) 0
  | noSize (nothing : cursor.rest = []) :
      Fails cursor .compactSize (.unexpectedEnd cursor.position 1 0) 0
  | sizeCutShort {first : UInt8} {width least : Nat} {body : Bytes}
      (wide : CompactSize.Wide first width least) (left : cursor.rest = first :: body)
      (short : body.length < width) :
      Fails cursor .compactSize (.unexpectedEnd (cursor.position + 1) width body.length) 1
  | sizeOverlong {first : UInt8} {width least value : Nat}
      (wide : CompactSize.Wide first width least) (needless : value < least)
      (stands : first :: Bytes.ofNatLE width value <+: cursor.rest) :
      Fails cursor .compactSize (.nonCanonicalVarInt cursor.position) (width + 1)
  | lengthMisread {what : String} {max passed : Nat} {error : DecodeError}
      (misread : Fails cursor .compactSize error passed) :
      Fails cursor (.length what max) error passed
  | lengthOversized {what : String} {max : Nat} {count : UInt64}
      (stands : CompactSize.encode count <+: cursor.rest) (many : max < count.toNat) :
      Fails cursor (.length what max) (.oversizedCollection what count.toNat max)
        (CompactSize.encode count).length
  | uncounted {what : String} {max passed : Nat} {error : DecodeError}
      (failed : Fails cursor (.length what max) error passed) :
      Fails cursor (.varBytes what max) error passed
  | bodyCutShort {what : String} {max : Nat} {count : UInt64} {body : Bytes}
      (left : cursor.rest = CompactSize.encode count ++ body) (few : count.toNat ≤ max)
      (short : body.length < count.toNat) :
      Fails cursor (.varBytes what max)
        (.unexpectedEnd (cursor.position + (CompactSize.encode count).length) count.toNat
          body.length)
        (CompactSize.encode count).length

/-- Each request of a fixed width takes one field. -/
theorem Fixed.takes (fixed : request.Fixed width) : Takes [width] request.read := by
  cases fixed with
  | uint8 => exact (((readNat_takes 1).map UInt8.ofNat).map Reading.uint8)
  | uint16 => exact (((readNat_takes 2).map UInt16.ofNat).map Reading.uint16)
  | uint32 => exact readUInt32_takes.map Reading.uint32
  | int32 => exact ((readUInt32_takes.map UInt32.toInt32).map Reading.int32)
  | uint64 => exact (((readNat_takes 8).map UInt64.ofNat).map Reading.uint64)
  | int64 => exact ((((readNat_takes 8).map UInt64.ofNat).map UInt64.toInt64).map Reading.int64)
  | hash => exact readHash_takes.map Reading.hash
  | bytes => exact (readBytes_takes width).map Reading.bytes

theorem Fixed.fails_iff (fixed : request.Fixed width) :
    Fails cursor request error passed ↔
      cursor.remaining < width ∧
        error = .unexpectedEnd cursor.position width cursor.remaining ∧ passed = 0 := by
  constructor
  · intro failed
    cases fixed with
    | _ =>
        cases failed with
        | field other short =>
            cases other
            exact ⟨short, rfl, rfl⟩
  · intro cut
    rcases cut with ⟨short, rfl, rfl⟩
    exact .field fixed short

/-- A field of a fixed width fails before its first byte. -/
theorem read_eq_error_iff_of_fixed (fixed : request.Fixed width) :
    request.read cursor = .error error stop ↔
      ∃ passed, Fails cursor request error passed ∧ stop = cursor.advance passed := by
  rw [fixed.takes.eq_error_iff]
  simp only [fixed.fails_iff]
  constructor
  · intro cut
    rcases cut with ⟨short, rfl, rfl⟩
    exact ⟨0, ⟨short, rfl, rfl⟩, rfl⟩
  · intro cut
    rcases cut with ⟨_, ⟨short, rfl, rfl⟩, rfl⟩
    exact ⟨short, rfl, rfl⟩

/-- A compact size fails without a first byte, cut short behind it, or overlong behind its form. -/
theorem compactSize_eq_error_iff :
    CompactSize.read cursor = .error error stop ↔
      ∃ passed, Fails cursor .compactSize error passed ∧ stop = cursor.advance passed := by
  rw [CompactSize.read_eq_error_iff]
  constructor
  · intro misread
    cases misread with
    | empty nothing => exact ⟨0, .noSize nothing, rfl⟩
    | cutShort wide marked short =>
        cases marked.eq_advance
        exact ⟨1, .sizeCutShort wide marked.rest short, rfl⟩
    | overlong wide small spelled =>
        refine ⟨_, .sizeOverlong wide small (Cursor.exists_passes_iff.mp ⟨stop, spelled⟩), ?_⟩
        rw [spelled.eq_advance, List.length_cons, Bytes.length_ofNatLE]
  · intro failed
    rcases failed with ⟨passed, failed, rfl⟩
    cases failed with
    | field fixed => cases fixed
    | noSize nothing => exact .empty nothing
    | @sizeCutShort first width least body wide left short =>
        have marked : cursor.Passes [first] ⟨cursor.position + 1, body⟩ := ⟨left, rfl⟩
        rw [← List.length_singleton (a := first), ← marked.eq_advance]
        exact .cutShort wide marked short
    | sizeOverlong wide needless stands =>
        obtain ⟨stop, spelled⟩ := Cursor.exists_passes_iff.mpr stands
        have reached := spelled.eq_advance
        rw [List.length_cons, Bytes.length_ofNatLE] at reached
        rw [← reached]
        exact .overlong wide needless spelled

/-- A length fails like the compact size that it is, or behind it if it is over the limit. -/
theorem length_eq_error_iff {what : String} {max : Nat} :
    readLength what max cursor = .error error stop ↔
      ∃ passed, Fails cursor (.length what max) error passed ∧ stop = cursor.advance passed := by
  rw [readLength_eq_error_iff, compactSize_eq_error_iff]
  constructor
  · intro failed
    rcases failed with ⟨passed, misread, rfl⟩ | ⟨count, passes, many, rfl⟩
    · exact ⟨passed, .lengthMisread misread, rfl⟩
    · exact ⟨_, .lengthOversized (Cursor.exists_passes_iff.mp ⟨stop, passes⟩) many,
        passes.eq_advance⟩
  · intro failed
    rcases failed with ⟨passed, failed, rfl⟩
    cases failed with
    | field fixed => cases fixed
    | lengthMisread misread => exact .inl ⟨passed, misread, rfl⟩
    | lengthOversized stands many =>
        obtain ⟨stop, passes⟩ := Cursor.exists_passes_iff.mpr stands
        rw [← passes.eq_advance]
        exact .inr ⟨_, passes, many, rfl⟩

/-- Bytes behind their length fail like the length, or for want of them. -/
theorem varBytes_eq_error_iff {what : String} {max : Nat} :
    readVarBytes what max cursor = .error error stop ↔
      ∃ passed, Fails cursor (.varBytes what max) error passed ∧
        stop = cursor.advance passed := by
  simp only [readVarBytes, Read.bind_eq_error_iff, length_eq_error_iff,
    readLength_eq_ok_iff_exists, (readBytes_takes _).eq_error_iff]
  constructor
  · intro failed
    rcases failed with ⟨passed, failed, rfl⟩ |
      ⟨_, middle, ⟨count, passes, few, rfl⟩, short, rfl, rfl⟩
    · exact ⟨passed, .uncounted failed, rfl⟩
    · rw [passes.position]
      exact ⟨_, .bodyCutShort passes.rest few short, passes.eq_advance⟩
  · intro failed
    rcases failed with ⟨passed, failed, rfl⟩
    cases failed with
    | field fixed => cases fixed
    | uncounted failed => exact .inl ⟨passed, failed, rfl⟩
    | @bodyCutShort _ _ count body left few short =>
        have passes : cursor.Passes (CompactSize.encode count)
            ⟨cursor.position + (CompactSize.encode count).length, body⟩ := ⟨left, rfl⟩
        rw [← passes.eq_advance]
        exact .inr ⟨_, _, ⟨count, passes, few, rfl⟩, short, rfl, rfl⟩

/-- To name what was read is not to fail in another way. -/
theorem map_eq_error_iff {α : Type} {read : Read α} {f : α → Reading} :
    (f <$> read) cursor = .error error stop ↔ read cursor = .error error stop := by
  rw [map_eq_pure_bind]
  exact Read.map_eq_error_iff

/-- A request other than for a header or a transaction fails as its kind does, and for no other
reason. -/
theorem read_eq_error_iff (noHeader : request ≠ .header) (noTransaction : request ≠ .transaction) :
    request.read cursor = .error error stop ↔
      ∃ passed, Fails cursor request error passed ∧ stop = cursor.advance passed := by
  cases request with
  | uint8 => exact read_eq_error_iff_of_fixed .uint8
  | uint16 => exact read_eq_error_iff_of_fixed .uint16
  | uint32 => exact read_eq_error_iff_of_fixed .uint32
  | int32 => exact read_eq_error_iff_of_fixed .int32
  | uint64 => exact read_eq_error_iff_of_fixed .uint64
  | int64 => exact read_eq_error_iff_of_fixed .int64
  | compactSize => exact map_eq_error_iff.trans compactSize_eq_error_iff
  | hash => exact read_eq_error_iff_of_fixed .hash
  | bytes count => exact read_eq_error_iff_of_fixed (.bytes count)
  | length what max => exact map_eq_error_iff.trans length_eq_error_iff
  | varBytes what max => exact map_eq_error_iff.trans varBytes_eq_error_iff
  | header => exact absurd rfl noHeader
  | transaction => exact absurd rfl noTransaction

end Request

namespace Session

variable {session : Session}

/-- A field of a fixed width is answered exactly if it is there in full, and otherwise the session
stays as it is. -/
theorem perform_fixed {request : Request} {width : Nat} (fixed : request.Fixed width)
    (session : Session) :
    session.cursor.remaining < width ∧
        session.perform (.ask request) =
          (.error (.unexpectedEnd session.cursor.position width session.cursor.remaining),
            session) ∨
      width ≤ session.cursor.remaining ∧
        ∃ reading, session.perform (.ask request) =
          (.ok (some reading), { session with cursor := session.cursor.advance width }) := by
  by_cases short : session.cursor.remaining < width
  · have failed := fixed.takes.eq_error_iff.mpr ⟨short, rfl, rfl⟩
    exact .inl ⟨short, perform_ask_eq_error_iff.mpr ⟨_, failed, rfl⟩⟩
  · obtain ⟨reading, taken⟩ := fixed.takes.whole (Nat.not_lt.mp short)
    refine .inr ⟨Nat.not_lt.mp short, reading, ?_⟩
    simp only [perform, taken]
    rfl

/-- Whatever is asked for in a session, and whatever fails in it, the session stays in its message
and does not go back unless it is told to: an end of what is taken is never past the end of the
message, and a rest is never less than nothing.  A field of a fixed width is taken or not begun.
Where a count or what it counts cannot be read, the rules of `Request.Fails` give the fault and how
far the session has come. -/
theorem reading_keeps_its_place :
    (∀ (message : Bytes) (offset : Nat), offset ≤ message.length →
      ∃ session, start message offset = .ok session ∧ session.cursor.position = offset ∧
        (∀ steps, ∀ later ∈ session.visited steps,
          later.cursor.position ≤ message.length ∧
            later.cursor.remaining = message.length - later.cursor.position ∧
            later.cursor.rest = message.drop later.cursor.position ∧
            ∀ count ≤ later.cursor.remaining, later.cursor.position + count ≤ message.length) ∧
        ∀ requests : List Request,
          (session.visited (requests.map .ask)).Pairwise fun earlier later =>
            earlier.cursor.position ≤ later.cursor.position) ∧
    (∀ (request : Request) (width : Nat), request.Fixed width → ∀ session : Session,
      session.cursor.remaining < width ∧
          session.perform (.ask request) =
            (.error (.unexpectedEnd session.cursor.position width session.cursor.remaining),
              session) ∨
        width ≤ session.cursor.remaining ∧
          ∃ reading, session.perform (.ask request) =
            (.ok (some reading), { session with cursor := session.cursor.advance width })) ∧
    ∀ request : Request, request ≠ .header → request ≠ .transaction →
      ∀ (session after : Session) (error : DecodeError),
        session.perform (.ask request) = (.error error, after) ↔
          ∃ passed, request.Fails session.cursor error passed ∧
            after = { session with cursor := session.cursor.advance passed } := by
  refine ⟨?stays, fun request width fixed session => perform_fixed fixed session, ?fails⟩
  case stays =>
    intro message offset inside
    have begun := start_eq_ok_iff.mpr ⟨inside, rfl⟩
    refine ⟨_, begun, rfl, ?_, visited_pairwise _⟩
    intro steps later reached
    have within := ((within_start begun).visited steps later reached).cursor
    have left := within.remaining
    refine ⟨within.inside, left, within.rest, ?_⟩
    intro count enough
    have there := within.inside
    omega
  case fails =>
    intro request noHeader noTransaction session after error
    simp only [perform_ask_eq_error_iff, Request.read_eq_error_iff noHeader noTransaction]
    constructor
    · intro failed
      rcases failed with ⟨_, ⟨passed, failed, rfl⟩, rfl⟩
      exact ⟨passed, failed, rfl⟩
    · intro failed
      rcases failed with ⟨passed, failed, rfl⟩
      exact ⟨_, ⟨passed, failed, rfl⟩, rfl⟩

/-- A message with a number written too long, and with fewer bytes at its end than are counted. -/
def faulty : Bytes := [9, 0xfd, 5, 0, 3, 1]

/-- Three requests fail, each from where the last one was left, and the fourth is answered. -/
theorem reading_keeps_its_place_of_faulty :
    ∃ session, start faulty 1 = .ok session ∧
      (session.visited ([.uint64, .compactSize, .varBytes "script" 10, .uint8].map .ask)).map
          (fun later => later.cursor.position) = [1, 1, 4, 5, 6] ∧
      ((session.visited ([.uint64, .compactSize, .varBytes "script" 10, .uint8].map .ask)).Pairwise
        fun earlier later => earlier.cursor.position ≤ later.cursor.position) ∧
      session.perform (.ask .uint64) = (.error (.unexpectedEnd 1 8 5), session) ∧
      session.perform (.ask .compactSize) =
        (.error (.nonCanonicalVarInt 1), { session with cursor := session.cursor.advance 3 }) := by
  obtain ⟨stays, fields, fails⟩ := reading_keeps_its_place
  obtain ⟨session, begun, -, -, forward⟩ := stays faulty 1 (by decide)
  cases begun
  refine ⟨_, rfl, rfl, forward _, ?_, ?_⟩
  · rcases fields .uint64 8 .uint64 ⟨⟨1, [0xfd, 5, 0, 3, 1]⟩, []⟩ with short | enough
    · exact short.2
    · exact absurd enough.1 (by decide)
  · have overlong : Request.compactSize.Fails ⟨1, [0xfd, 5, 0, 3, 1]⟩ (.nonCanonicalVarInt 1) 3 :=
      .sizeOverlong .two (show 5 < 0xfd by decide) ⟨[3, 1], rfl⟩
    exact (fails .compactSize nofun nofun _ _ _).mpr ⟨3, overlong, rfl⟩

end Session

end MergedMining
