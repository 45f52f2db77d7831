/-
This file tells when a row that is readable can be decoded. Asking whether a row is readable counts
bytes, but decoding takes a slice of the block for each value, also for one without bytes. The two
come apart if the buffer holds no block: it has never been written to, has given its block back, or
has left it to the slices of it. Then no byte is readable, and what can be read as a row are columns
of fixed length 0. Each such row is announced as readable, and decoding it fails.

In every other case a row that is readable is decoded, and no check fails on the way. A row with a
bitmap has a byte as soon as it has a column, and without a column there is nothing to decode.
-/

import TabularStream.Proofs.CheckedRows
import TabularStream.Proofs.Acceptance

namespace TabularStream

/-! ### Values without bytes -/

/-- The values of the column have no descriptor and no length. -/
def ColumnType.IsVoid (type : ColumnType) : Prop := type.strategy = .fixed ∧ type.maxLength = 0

instance (type : ColumnType) : Decidable type.IsVoid :=
  inferInstanceAs (Decidable (type.strategy = .fixed ∧ type.maxLength = 0))

variable {type : ColumnType} {columns : List ColumnType}

theorem ColumnType.IsVoid.isPlp (void : type.IsVoid) : type.isPlp = false := by
  unfold ColumnType.isPlp
  rw [void.1]
  rfl

theorem ColumnType.IsVoid.descriptorSize (void : type.IsVoid) : type.descriptorSize = 0 := by
  unfold ColumnType.descriptorSize
  rw [void.1]
  rfl

theorem ColumnType.IsVoid.ofDescriptor (void : type.IsVoid) (bytes : Bytes) :
    ScalarLength.ofDescriptor type bytes = .of 0 := by
  unfold ScalarLength.ofDescriptor
  rw [if_pos void.1, void.2]

theorem ColumnType.strategy_of_descriptorSize (none : type.descriptorSize = 0) :
    type.strategy = .fixed := by
  unfold ColumnType.descriptorSize at none
  cases strategy : type.strategy with
  | fixed => rfl
  | byte | ushort | long | part =>
    rw [strategy] at none
    cases none

theorem ColumnType.IsVoid.split_nil (void : type.IsVoid) : type.split [] = some (some [], []) := by
  have written : WrittenValue type (some [[]]) ([] ++ []) :=
    .scalar void.isPlp void.descriptorSize.symm (void.ofDescriptor []) rfl
  exact ColumnType.split_of_written written []

/-- Only a value without bytes is cut off no bytes. -/
theorem ColumnType.isVoid_of_split_nil {cut : Option Bytes × Bytes}
    (found : type.split [] = some cut) : type.IsVoid := by
  obtain ⟨contents, front, written, nothing, -⟩ := ColumnType.split_eq_some_iff.1 found
  have nothing := (List.append_eq_nil_iff.1 nothing.symm).1
  cases written with
  | null scalar width length =>
    rw [nothing] at width
    unfold ScalarLength.ofDescriptor at length
    rw [if_pos (strategy_of_descriptorSize width.symm)] at length
    cases length
  | scalar scalar width length exactly =>
    obtain ⟨rfl, rfl⟩ := List.append_eq_nil_iff.1 nothing
    have fixed := strategy_of_descriptorSize width.symm
    unfold ScalarLength.ofDescriptor at length
    rw [if_pos fixed] at length
    cases length
    exact ⟨fixed, UInt32.toNat_inj.1 exactly.symm⟩
  | plpNull plp absent => cases nothing
  | plp plp present written => cases nothing

/-- A row without a bitmap is cut off no bytes exactly if none of its values has any. -/
theorem RowLayout.isSome_split_nil_iff :
    ((RowLayout.full columns).split []).isSome = true ↔ ∀ type ∈ columns, type.IsVoid := by
  induction columns with
  | nil => exact ⟨fun _ => List.forall_mem_nil _, fun _ => rfl⟩
  | cons type types inductionHypothesis =>
    rw [List.forall_mem_cons, ← inductionHypothesis]
    show (RowLayout.split (some type :: RowLayout.full types) []).isSome = true ↔ _
    rw [RowLayout.split]
    cases found : type.split [] with
    | none =>
      constructor
      · intro impossible
        cases impossible
      · rintro ⟨void, -⟩
        cases found.symm.trans void.split_nil
    | some cut =>
      have void := ColumnType.isVoid_of_split_nil found
      cases found.symm.trans void.split_nil
      dsimp only
      rw [Option.isSome_map]
      exact (and_iff_right void).symm

/-! ### Decoding without a block -/

section Blockless

variable {buffer : ReceiveBuffer} {pool : Pool} {others : List Slice}

/-- No slice can be taken from a buffer without a block, not even one of no bytes. -/
theorem readSlice_of_none (blockless : buffer.block = none) (count : Nat) :
    buffer.readSlice pool count = .error .precondition := by
  unfold ReceiveBuffer.readSlice
  rw [blockless]
  split <;> rfl

/-- Going back to where no byte has been read changes nothing. -/
theorem reset_advance_zero (sound : buffer.Sound pool others) :
    (buffer.advance 0).reset buffer.reader = .ok buffer :=
  sound.reset_of_onlyRead ⟨rfl, rfl⟩

theorem decodeValue_of_isVoid (sound : buffer.Sound pool others) (blockless : buffer.block = none)
    (void : type.IsVoid) :
    buffer.decodeValue pool type = ⟨pool, buffer, .error .precondition⟩ := by
  have notPlp : ¬ type.isPlp = true := Bool.eq_false_iff.1 void.isPlp
  unfold ReceiveBuffer.decodeValue ReceiveBuffer.decodeScalar ReceiveBuffer.readScalarLength
    ReceiveBuffer.readBytes
  rw [if_neg notPlp, void.descriptorSize, if_pos (Nat.zero_le _)]
  dsimp only
  rw [void.ofDescriptor]
  dsimp only
  rw [if_neg (show ¬ _ < (0 : UInt32).toNat from Nat.not_lt_zero _), reset_advance_zero sound]
  dsimp only
  rw [readSlice_of_none blockless]

/-- Of all that is checked it is taking the slice that fails. -/
theorem Checked.decodeValue_of_isVoid (sound : buffer.Sound pool others)
    (blockless : buffer.block = none) (void : type.IsVoid) :
    Checked.decodeValue buffer pool type = .error .precondition := by
  have notPlp : ¬ type.isPlp = true := Bool.eq_false_iff.1 void.isPlp
  have width := void.descriptorSize
  obtain ⟨size, nothing, parsed⟩ : ∃ size : UInt32, size.toNat = 0 ∧
      ScalarLength.parse type (buffer.peek pool 0) = .ok (.of size) := by
    refine ⟨0, rfl, ?_⟩
    unfold ScalarLength.parse
    rw [width, void.ofDescriptor]
    exact if_neg (Nat.not_lt_zero _)
  unfold Checked.decodeValue Checked.decodeScalar
  rw [if_neg notPlp, width, Checked.need_eq (Nat.zero_le _)]
  show (Checked.take buffer pool 0 >>= _) = _
  rw [Checked.take_eq sound (Nat.zero_le _)]
  show (ScalarLength.parse type (buffer.peek pool 0) >>= _) = _
  rw [parsed]
  show (Checked.need (buffer.advance 0) size.toNat >>= _) = _
  rw [nothing, Checked.need_eq (Nat.zero_le _)]
  show (ReceiveBuffer.reset (buffer.advance 0) buffer.reader >>= _) = _
  rw [reset_advance_zero sound]
  show (buffer.readSlice pool _ >>= _) = _
  rw [readSlice_of_none blockless]
  rfl

/-- A row without columns is decoded from any buffer. -/
theorem decode_nil (token : RowToken) (sound : buffer.Sound pool others) :
    ∃ after, token.decode buffer pool [] = ⟨pool, after, .ok ⟨[]⟩⟩ ∧
      Checked.decode token buffer pool [] = .ok (pool, after, ⟨[]⟩) := by
  cases token with
  | row => exact ⟨buffer, rfl, rfl⟩
  | bitmapRow =>
    have enough : bitmapSize ([] : List ColumnType).length ≤ buffer.readableBytes := Nat.zero_le _
    refine ⟨buffer.advance (bitmapSize 0), ?_, ?_⟩
    · unfold RowToken.decode ReceiveBuffer.decodeBitmap ReceiveBuffer.readBytes
      dsimp only
      rw [if_pos enough]
      rfl
    · unfold Checked.decode
      dsimp only
      rw [Checked.need_eq enough]
      show (Checked.take buffer pool _ >>= _) = _
      rw [Checked.take_eq sound enough]
      rfl

/-- Decoding a row fails at a first column without bytes if there is no block. -/
theorem decode_of_isVoid (sound : buffer.Sound pool others) (blockless : buffer.block = none)
    (void : type.IsVoid) (types : List ColumnType) :
    RowToken.row.decode buffer pool (type :: types) = ⟨pool, buffer, .error .precondition⟩ ∧
      Checked.decode .row buffer pool (type :: types) = .error .precondition := by
  constructor
  · show buffer.decodeLayout pool (some type :: RowLayout.full types) = _
    unfold ReceiveBuffer.decodeLayout ReceiveBuffer.decodeSlots
    rw [decodeValue_of_isVoid sound blockless void]
    rfl
  · show (Checked.decodeValue buffer pool type >>= _) = _
    rw [Checked.decodeValue_of_isVoid sound blockless void]
    rfl

end Blockless

/-! ### What is readable can be decoded -/

namespace Session

variable {session : Session} {token : RowToken}

/-- Reading the body of a token gives a row, and no check fails on the way. -/
def Decodes (session : Session) (token : RowToken) (columns : List ColumnType) : Prop :=
  ∃ pool buffer row,
    token.decode session.buffer session.pool columns = ⟨pool, buffer, .ok row⟩ ∧
      Checked.decode token session.buffer session.pool columns = .ok (pool, buffer, row)

/-- A precondition does not hold where the body of a token is read, and nothing has been read. -/
def Trips (session : Session) (token : RowToken) (columns : List ColumnType) : Prop :=
  token.decode session.buffer session.pool columns =
      ⟨session.pool, session.buffer, .error .precondition⟩ ∧
    Checked.decode token session.buffer session.pool columns = .error .precondition

theorem Trips.not_decodes (trips : session.Trips token columns) :
    ¬ session.Decodes token columns := by
  rintro ⟨pool, buffer, row, -, succeeds⟩
  cases trips.2.symm.trans succeeds

/-- What is readable in a buffer that holds a block is decoded. -/
theorem Sound.decodes_of_held (sound : session.Sound) (held : session.buffer.block.isSome)
    (whole : session.Answers token columns true) : session.Decodes token columns := by
  obtain ⟨⟨pieces, rest⟩, found⟩ := Option.isSome_iff_exists.1 ((answers_iff sound).1 whole)
  obtain ⟨pool, after, row, decoded, -⟩ := ReceiveBuffer.Sound.decode sound held found
  have repeats := Checked.decode_repeats sound held found row (by rw [decoded])
  rw [decoded] at repeats
  exact ⟨pool, after, row, decoded, repeats⟩

/-- Without a block a row is readable if no value of it has bytes. -/
theorem Sound.answers_row_of_none (sound : session.Sound)
    (blockless : session.buffer.block = none) :
    session.Answers .row columns true ↔ ∀ type ∈ columns, type.IsVoid := by
  have nothing : session.unread = [] := ReceiveBuffer.readable_of_none blockless
  rw [answers_iff sound, nothing]
  exact RowLayout.isSome_split_nil_iff

/-- Without a block there is no bitmap to be read. -/
theorem Sound.not_answers_bitmapRow (sound : session.Sound)
    (blockless : session.buffer.block = none) (some : columns ≠ []) :
    ¬ session.Answers .bitmapRow columns true := by
  have nothing : session.unread = [] := ReceiveBuffer.readable_of_none blockless
  have count := List.length_pos_iff.2 some
  have short : ([] : Bytes).length < bitmapSize columns.length := by
    unfold bitmapSize
    rw [List.length_nil]
    omega
  intro whole
  rw [answers_iff sound, nothing, RowToken.split, if_pos short] at whole
  cases whole

/-- Decoding a row that is readable without a block fails. -/
theorem Sound.trips (sound : session.Sound) (blockless : session.buffer.block = none)
    (some : columns ≠ []) (whole : session.Answers .row columns true) :
    session.Trips .row columns := by
  have void := (sound.answers_row_of_none blockless).1 whole
  cases columns with
  | nil => exact absurd rfl some
  | cons type types => exact decode_of_isVoid sound blockless (void type List.mem_cons_self) types

/-- A row that is readable is decoded without failing a check, except for one kind of row, which is
not: one without a bitmap but with columns, if the buffer does not hold a block. Such a row is
readable exactly if none of its values has bytes, and then decoding fails where it takes a slice for
the first of them. -/
theorem readable_rows_are_decoded (reachable : session.Reachable) (token : RowToken)
    (columns : List ColumnType) :
    (session.Answers token columns true →
      (session.Decodes token columns ↔
        ¬ (token = .row ∧ session.buffer.block = none ∧ columns ≠ []))) ∧
      (session.buffer.block = none → columns ≠ [] →
        ¬ session.Answers .bitmapRow columns true ∧
        (session.Answers .row columns true ↔ ∀ type ∈ columns, type.IsVoid) ∧
        (session.Answers .row columns true → session.Trips .row columns)) := by
  have sound := reachable.sound
  refine ⟨fun whole => ⟨?_, fun other => ?_⟩, fun blockless some => ?_⟩
  · rintro decodes ⟨rfl, blockless, some⟩
    exact (sound.trips blockless some whole).not_decodes decodes
  · cases held : session.buffer.block with
    | some block =>
      have present : session.buffer.block.isSome := by rw [held]; rfl
      exact sound.decodes_of_held present whole
    | none =>
      cases columns with
      | nil =>
        obtain ⟨after, decoded, checked⟩ := decode_nil token sound
        exact ⟨_, after, _, decoded, checked⟩
      | cons type types =>
        have some : type :: types ≠ [] := List.cons_ne_nil _ _
        cases token with
        | row => exact absurd ⟨rfl, held, some⟩ other
        | bitmapRow => exact absurd whole (sound.not_answers_bitmapRow held some)
  · exact ⟨sound.not_answers_bitmapRow blockless some, sound.answers_row_of_none blockless,
      sound.trips blockless some⟩

/-- A column whose values have no bytes. -/
def voidColumn : ColumnType := ⟨.int, .fixed, 0, .usAscii, 0, 0⟩

/-- A buffer that has never been written to has a row of this column readable and cannot decode
it. -/
theorem readable_row_trips_freshSession :
    let session := Session.fresh {} [voidColumn]
    session.Reachable ∧ session.Answers .row [voidColumn] true ∧
      ¬ session.Decodes .row [voidColumn] ∧
      (session.run [.row .canDecode, .row .decode]).map Outcome.result =
        [.ok (.flag true), .error .precondition] := by
  intro session
  have new : Session.new {} [voidColumn] = .ok session := rfl
  have reachable : session.Reachable := .new new
  have whole : session.Answers .row [voidColumn] true :=
    (answers_iff reachable.sound).2 (by decide +kernel)
  have trips := reachable.sound.trips rfl (List.cons_ne_nil _ _) whole
  exact ⟨reachable, whole, trips.not_decodes, by decide +kernel⟩

/-- A session that has left its block to a slice of all that it had received. -/
def leftSession : Session :=
  (Session.fresh {} [voidColumn]).after
    [.buffer (.append [1, 2]), .buffer (.readSlice 2), .buffer .discard]

theorem readable_rows_are_decoded_leftSession :
    leftSession.pool.useCount ⟨0, 0, 2⟩ = 1 ∧
      leftSession.Answers .row [voidColumn, voidColumn] true ∧
      ¬ leftSession.Decodes .row [voidColumn, voidColumn] := by
  have new : Session.new {} [voidColumn] = .ok (Session.fresh {} [voidColumn]) := rfl
  have reachable : leftSession.Reachable := (Session.Reachable.new new).after (by decide)
  have blockless : leftSession.buffer.block = none := by decide +kernel
  obtain ⟨decodes, without⟩ :=
    readable_rows_are_decoded reachable .row [voidColumn, voidColumn]
  obtain ⟨-, readable, -⟩ := without blockless (List.cons_ne_nil _ _)
  have whole := readable.2 (by decide)
  refine ⟨by decide +kernel, whole, fun row => ?_⟩
  exact (decodes whole).1 row ⟨rfl, blockless, List.cons_ne_nil _ _⟩

end Session

end TabularStream
