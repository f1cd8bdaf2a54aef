/-
Module: MergedMining.Proofs.HeaderCodec
Purpose: Any 80 bytes are read as the one header that they spell, and fewer up to the field they
  end in.
Trusted boundary: none
Main exports: Wire.layoutFrom, Wire.Takes, Wire.Takes.bind, BlockHeader.read_takes,
  BlockHeader.layout, BlockHeader.read_of_cut, BlockHeader.wireForm_bijective,
  BlockHeader.codec_in_any_context
-/
import MergedMining.Proofs.MessageGrammar
import Mathlib.Algebra.Ring.Nat
import Mathlib.Order.Bounds.Basic

/-!
A header is a row of fields of fixed widths without any condition on them.  So bytes are lacking or
they are a header, and two headers are not spelled alike: headers and strings of 80 bytes are the
same thing in two forms.

Where bytes are lacking, the fields before the end have been taken one by one, and the first one
that is not there in full is reported and not begun.  This holds of every row of such fields, and
follows for a row from what holds of each field in it.
-/

namespace MergedMining

open Wire

namespace Wire

/-! ## Rows of fields -/

/-- Where each field of a row begins, with its width, if the row begins at `offset`. -/
def layoutFrom (offset : Nat) : (widths : List Nat) → List (Nat × Nat)
  | [] => []
  | width :: widths => (offset, width) :: layoutFrom (offset + width) widths

/-- A row behind a row begins where that one ends. -/
theorem layoutFrom_append (offset : Nat) (front back : List Nat) :
    layoutFrom offset (front ++ back) =
      layoutFrom offset front ++ layoutFrom (offset + front.sum) back := by
  induction front generalizing offset with
  | nil => rfl
  | cons width front ih =>
      simp only [List.cons_append, layoutFrom, ih, List.sum_cons, Nat.add_assoc]

/-- The fields of a row that begins later are as much later. -/
theorem mem_layoutFrom_add {offset width start : Nat} {widths : List Nat} (count : Nat)
    (listed : (offset, width) ∈ layoutFrom start widths) :
    (count + offset, width) ∈ layoutFrom (count + start) widths := by
  induction widths generalizing start with
  | nil => cases listed
  | cons first widths ih =>
      rcases List.mem_cons.mp listed with same | later
      · cases same
        exact List.mem_cons_self
      · have moved := ih later
        rw [← Nat.add_assoc] at moved
        exact List.mem_cons_of_mem _ moved

/-- The read takes a row of fields of these widths, each in full or not at all, whatever is written
in them. -/
structure Takes {α : Type} (widths : List Nat) (read : Read α) : Prop where
  whole {start : Cursor} (enough : widths.sum ≤ start.remaining) :
    ∃ value, read start = .ok value (start.advance widths.sum)
  /-- The bytes end in the field at `offset`. -/
  cut {start : Cursor} (short : start.remaining < widths.sum) :
    ∃ offset width, (offset, width) ∈ layoutFrom 0 widths ∧
      offset ≤ start.remaining ∧ start.remaining < offset + width ∧
      read start =
        .error (.unexpectedEnd (start.position + offset) width (start.remaining - offset))
          (start.advance offset)

namespace Takes

variable {α β : Type} {front back widths : List Nat} {read : Read α} {next : α → Read β}

theorem pure (value : α) : Takes [] (Pure.pure value : Read α) where
  whole _ := ⟨value, rfl⟩
  cut short := absurd short (Nat.not_lt_zero _)

/-- Bytes of a fixed number are a row of one field. -/
theorem readExactly (width : Nat) : Takes [width] (Wire.readExactly width) where
  whole enough := ⟨_, readExactly_of_enough enough⟩
  cut {start} short := by
    refine ⟨0, width, List.mem_singleton_self _, Nat.zero_le _, ?_, readExactly_of_short short⟩
    rw [Nat.zero_add]
    exact short

/-- The fields of the second read stand behind those of the first. -/
theorem bind (first : Takes front read) (second : ∀ value, Takes back (next value)) :
    Takes (front ++ back) (read >>= next) where
  whole {start} enough := by
    rw [List.sum_append] at enough ⊢
    have room : back.sum ≤ (start.advance front.sum).remaining := by
      rw [Cursor.remaining_advance]
      omega
    obtain ⟨value, taken⟩ := first.whole (Nat.le_trans (Nat.le_add_right ..) enough)
    obtain ⟨result, done⟩ := (second value).whole room
    rw [Cursor.advance_advance] at done
    exact ⟨result, (Read.bind_of_ok taken).trans done⟩
  cut {start} short := by
    rw [List.sum_append] at short
    rw [layoutFrom_append, Nat.zero_add]
    by_cases enough : front.sum ≤ start.remaining
    · have lack : (start.advance front.sum).remaining < back.sum := by
        rw [Cursor.remaining_advance]
        omega
      -- the bytes end behind the first row, so the fault is that of the second
      obtain ⟨value, taken⟩ := first.whole enough
      obtain ⟨offset, width, listed, there, missing, failed⟩ := (second value).cut lack
      simp only [Cursor.remaining_advance, Cursor.position_advance, Cursor.advance_advance,
        Nat.add_assoc, Nat.sub_sub] at there missing failed
      have moved := mem_layoutFrom_add front.sum listed
      exact ⟨front.sum + offset, width, List.mem_append_right _ moved, by omega, by omega,
        (Read.bind_of_ok taken).trans failed⟩
    · obtain ⟨offset, width, listed, there, missing, failed⟩ := first.cut (Nat.not_le.mp enough)
      exact ⟨offset, width, List.mem_append_left _ listed, there, missing,
        Read.bind_eq_error_iff.mpr (.inl failed)⟩

/-- To make another value of what is read is to take the same fields. -/
theorem map (first : Takes widths read) (f : α → β) :
    Takes widths (read >>= fun value => Pure.pure (f value)) := by
  have row := first.bind fun value => pure (f value)
  rw [List.append_nil] at row
  exact row

/-- A row of one field is taken whole or not begun. -/
theorem eq_error_iff {width : Nat} (field : Takes [width] read) {start stop : Cursor}
    {error : DecodeError} :
    read start = .error error stop ↔
      start.remaining < width ∧
        error = .unexpectedEnd start.position width start.remaining ∧ start = stop := by
  by_cases short : start.remaining < width
  · obtain ⟨offset, width, listed, -, -, failed⟩ := field.cut short
    cases List.mem_singleton.mp listed
    rw [failed, EStateM.Result.error.injEq]
    simp only [short, true_and, eq_comm, Nat.add_zero, Nat.sub_zero, Cursor.advance_zero]
  · obtain ⟨value, taken⟩ := field.whole (Nat.not_lt.mp short)
    rw [taken]
    simp only [short, reduceCtorEq, false_and]

end Takes

theorem readBytes_takes (count : Nat) : Takes [count] (readBytes count) :=
  (Takes.readExactly count).map _

theorem readNat_takes (width : Nat) : Takes [width] (readNat width) := (readBytes_takes width).map _

theorem readUInt32_takes : Takes [4] readUInt32 := (readNat_takes 4).map _

theorem readHash_takes : Takes [32] readHash := (Takes.readExactly 32).map _

end Wire

namespace BlockHeader

/-! ## Headers as rows of fields -/

/-- Where each field of a header begins, with its width. -/
def layout : List (Nat × Nat) := [(0, 4), (4, 32), (36, 32), (68, 4), (72, 4), (76, 4)]

/-- A header is a row of six fields: its version, two hashes and three words. -/
theorem read_takes : Takes [4, 32, 32, 4, 4, 4] read := by
  apply readUInt32_takes.bind
  intro version
  apply readHash_takes.bind
  intro previous
  apply readHash_takes.bind
  intro merkleRoot
  apply readUInt32_takes.bind
  intro time
  apply readUInt32_takes.bind
  intro bits
  exact readUInt32_takes.map _

variable {start : Cursor} {one other : BlockHeader}

/-- The bytes end in the field that begins last among those that they reach. -/
theorem isGreatest_of_mem_layout {offset width present : Nat} (listed : (offset, width) ∈ layout)
    (there : offset ≤ present) (missing : present < offset + width) :
    IsGreatest {boundary | boundary ∈ layout.map Prod.fst ∧ boundary ≤ present} offset := by
  have apart : ∀ field ∈ layout, ∀ boundary ∈ layout.map Prod.fst,
      boundary ≤ field.1 ∨ field.1 + field.2 ≤ boundary := by decide
  refine ⟨⟨List.mem_map_of_mem listed, there⟩, ?_⟩
  intro boundary reached
  rcases apart _ listed boundary reached.1 with before | behind
  · exact before
  · exact absurd (Nat.le_trans behind reached.2) (Nat.not_le.mpr missing)

/-- A header that is cut short ends in the field with the greatest offset that is still there. -/
theorem read_of_cut (short : start.remaining < 80) :
    ∃ offset width, (offset, width) ∈ layout ∧
      IsGreatest {boundary | boundary ∈ layout.map Prod.fst ∧ boundary ≤ start.remaining} offset ∧
      read start =
        .error (.unexpectedEnd (start.position + offset) width (start.remaining - offset))
          (start.advance offset) := by
  obtain ⟨offset, width, listed, there, missing, failed⟩ := read_takes.cut short
  exact ⟨offset, width, listed, isGreatest_of_mem_layout listed there missing, failed⟩

/-! ## Headers as strings of bytes -/

/-- What is written of a header is read as that header, with nothing left. -/
theorem read_encode (header : BlockHeader) : read ⟨0, header.encode⟩ = .ok header ⟨80, []⟩ := by
  apply read_eq_ok_iff.mpr
  refine ⟨(List.append_nil _).symm, ?_⟩
  rw [length_encode]
  rfl

/-- Headers are told by their wire forms. -/
theorem encode_inj : one.encode = other.encode ↔ one = other := by
  constructor
  · intro same
    have again := one.read_encode
    rw [same, read_encode] at again
    cases again
    rfl
  · exact congrArg encode

/-- From 80 bytes a header is read, whichever they are, and it is written as those bytes. -/
theorem read_of_whole (enough : 80 ≤ start.remaining) :
    ∃ header, read start = .ok header (start.advance 80) ∧ header.encode = start.rest.take 80 := by
  obtain ⟨header, taken⟩ := read_takes.whole enough
  have spelled := congrArg (List.take 80) (read_eq_ok_iff.mp taken).rest
  have width : 80 = header.encode.length := header.length_encode.symm
  refine ⟨header, taken, ?_⟩
  rw [spelled, width, List.take_left]

/-- The wire form as a string of 80 bytes. -/
def wireForm (header : BlockHeader) : { bytes : Bytes // bytes.length = 80 } :=
  ⟨header.encode, header.length_encode⟩

/-- Headers and strings of 80 bytes are two forms of the same. -/
theorem wireForm_bijective : Function.Bijective wireForm := by
  constructor
  · intro one other same
    exact encode_inj.mp (congrArg Subtype.val same)
  · intro spelling
    rcases spelling with ⟨bytes, width⟩
    have enough : 80 ≤ Cursor.remaining ⟨0, bytes⟩ := Nat.le_of_eq width.symm
    obtain ⟨header, -, spelled⟩ := read_of_whole enough
    refine ⟨header, Subtype.ext ?_⟩
    rw [← width, List.take_length] at spelled
    exact spelled

/-- Headers are read wherever they stand in a message.  If 80 bytes are left, the header that they
spell is read, which is the only one that does.  If fewer are left, the field that they end in is
reported, and the reader is left where it begins. -/
theorem codec_in_any_context :
    (∀ (message : Bytes) (place : Nat), place ≤ message.length →
      ∃ start, Cursor.start message place = .ok start ∧
        (80 ≤ message.length - place →
          ∃ header, read start = .ok header ⟨place + 80, message.drop (place + 80)⟩ ∧
            ∀ other : BlockHeader,
              other.encode = message.extract place (place + 80) ↔ other = header) ∧
        (message.length - place < 80 →
          ∃ offset width, (offset, width) ∈ layout ∧
            IsGreatest
              {boundary | boundary ∈ layout.map Prod.fst ∧ boundary ≤ message.length - place}
              offset ∧
            read start =
              .error (.unexpectedEnd (place + offset) width (message.length - place - offset))
                ⟨place + offset, message.drop (place + offset)⟩)) ∧
    (∀ header : BlockHeader, header.encode.length = 80) ∧ Function.Bijective wireForm := by
  refine ⟨?_, length_encode, wireForm_bijective⟩
  intro message place inside
  have remaining : Cursor.remaining ⟨place, message.drop place⟩ = message.length - place :=
    List.length_drop
  have reached : ∀ count, Cursor.advance ⟨place, message.drop place⟩ count =
      ⟨place + count, message.drop (place + count)⟩ := by
    intro count
    rw [Cursor.advance, List.drop_drop]
  refine ⟨⟨place, message.drop place⟩, Cursor.start_eq_ok_iff.mpr ⟨inside, rfl⟩, ?_, ?_⟩
  · intro enough
    rw [← remaining] at enough
    obtain ⟨header, taken, spelled⟩ := read_of_whole enough
    rw [reached] at taken
    refine ⟨header, taken, ?_⟩
    intro other
    rw [List.extract_eq_take_drop, Nat.add_sub_cancel_left, ← spelled]
    exact encode_inj
  · intro short
    rw [← remaining] at short
    obtain ⟨offset, width, listed, greatest, failed⟩ := read_of_cut short
    rw [remaining] at greatest failed
    rw [reached] at failed
    exact ⟨offset, width, listed, greatest, failed⟩

/-- A message that holds a header behind one byte, and the same message cut off inside the merkle
root. -/
theorem codec_in_any_context_of_fives :
    (∃ start header, Cursor.start (List.replicate 120 5) 1 = .ok start ∧
      read start = .ok header ⟨81, List.replicate 39 5⟩ ∧
      header.encode = List.replicate 80 5) ∧
    ∃ start, Cursor.start (List.replicate 51 5) 1 = .ok start ∧
      read start = .error (.unexpectedEnd 37 32 14) ⟨37, List.replicate 14 5⟩ := by
  obtain ⟨anywhere, -, -⟩ := codec_in_any_context
  constructor
  · obtain ⟨start, begun, whole, -⟩ := anywhere (List.replicate 120 5) 1 (by decide)
    obtain ⟨header, taken, only⟩ := whole (by decide)
    exact ⟨start, header, begun, taken, (only header).mpr rfl⟩
  · obtain ⟨start, begun, -, cut⟩ := anywhere (List.replicate 51 5) 1 (by decide)
    obtain ⟨offset, width, listed, greatest, failed⟩ := cut (by decide)
    have root : (36, 32) ∈ layout := by decide
    cases greatest.unique (isGreatest_of_mem_layout root (by decide) (by decide))
    have narrow : width = 32 := by simpa [layout] using listed
    cases narrow
    exact ⟨start, begun, failed⟩

end BlockHeader

end MergedMining
