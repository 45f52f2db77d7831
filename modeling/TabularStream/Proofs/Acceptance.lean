/-
This file proves that asking whether a row is readable and decoding it accept the same bytes, and
that these are the ones that the grammar of rows allows. `RowToken.Written` is the grammar with
the contents of the columns: the values of the columns that are present, after the bitmap if there
is one. A body that is written so is cut off in one way only, whatever follows it, and none of its
fronts is a body.

Decoding a body that is whole is the subject of another file. Here it is said where the cursor is
afterwards, and that decoding fails for want of bytes when no body can be cut off: the chunks, the
value or the column that is not whole is found, and every reading before it succeeds.
-/

import TabularStream.Proofs.Fragments

namespace TabularStream

/-! ### The grammar with the contents -/

/-- The bytes of the values of the columns that are present, with the contents of all columns.
Columns that are left out are NULL. -/
inductive WrittenValues : RowLayout → List (Option (List Bytes)) → Bytes → Prop where
  | nil : WrittenValues [] [] []
  | absent {columns : RowLayout} {contents : List (Option (List Bytes))} {bytes : Bytes}
      (others : WrittenValues columns contents bytes) :
      WrittenValues (none :: columns) (none :: contents) bytes
  | present {type : ColumnType} {columns : RowLayout} {content : Option (List Bytes)}
      {contents : List (Option (List Bytes))} {bytes rest : Bytes}
      (value : WrittenValue type content bytes) (others : WrittenValues columns contents rest) :
      WrittenValues (some type :: columns) (content :: contents) (bytes ++ rest)

/-- The bytes of the body of a token, with the contents of its columns. -/
inductive RowToken.Written (columns : List ColumnType) :
    RowToken → List (Option (List Bytes)) → Bytes → Prop where
  | row {contents : List (Option (List Bytes))} {bytes : Bytes}
      (values : WrittenValues (RowLayout.full columns) contents bytes) :
      Written columns .row contents bytes
  | bitmapRow {contents : List (Option (List Bytes))} {bitmap bytes : Bytes}
      (width : bitmap.length = bitmapSize columns.length)
      (values : WrittenValues (RowLayout.ofBitmap bitmap columns) contents bytes) :
      Written columns .bitmapRow contents (bitmap ++ bytes)

theorem RowLayout.split_of_written {columns : RowLayout} {contents : List (Option (List Bytes))}
    {front : Bytes} (written : WrittenValues columns contents front) (rest : Bytes) :
    ∃ pieces, columns.split (front ++ rest) = some (pieces, rest) ∧
      pieces.map Option.isNone = contents.map Option.isNone := by
  induction written with
  | nil => exact ⟨[], rfl, rfl⟩
  | absent others inductionHypothesis =>
    obtain ⟨pieces, found, nulls⟩ := inductionHypothesis
    refine ⟨none :: pieces, ?_, congrArg (true :: ·) nulls⟩
    rw [split, found]
    rfl
  | @present type columns content contents bytes tail value others inductionHypothesis =>
    obtain ⟨pieces, found, nulls⟩ := inductionHypothesis
    refine ⟨(content.map fun _ => bytes) :: pieces, ?_, ?_⟩
    · rw [List.append_assoc, split, ColumnType.split_of_written value]
      dsimp only
      rw [found]
      rfl
    · rw [List.map_cons, List.map_cons, nulls, Option.isNone_map]

theorem RowLayout.exists_written_of_split {columns : RowLayout} {bytes rest : Bytes}
    {pieces : List (Option Bytes)} (found : columns.split bytes = some (pieces, rest)) :
    ∃ contents front, WrittenValues columns contents front ∧ bytes = front ++ rest := by
  induction columns generalizing bytes pieces with
  | nil =>
    cases found
    exact ⟨[], [], .nil, rfl⟩
  | cons column columns inductionHypothesis =>
    cases column with
    | none =>
      obtain ⟨⟨others, last⟩, tail, same⟩ := Option.map_eq_some_iff.1 found
      cases same
      obtain ⟨contents, front, written, cut⟩ := inductionHypothesis tail
      exact ⟨none :: contents, front, .absent written, cut⟩
    | some type =>
      unfold split at found
      split at found
      · cases found
      · rename_i piece middle first
        obtain ⟨⟨others, last⟩, tail, same⟩ := Option.map_eq_some_iff.1 found
        cases same
        obtain ⟨content, front, value, rfl, -⟩ := ColumnType.split_eq_some_iff.1 first
        obtain ⟨contents, more, written, rfl⟩ := inductionHypothesis tail
        exact ⟨content :: contents, front ++ more, .present value written,
          (List.append_assoc ..).symm⟩

namespace RowToken

variable {token : RowToken} {columns : List ColumnType}

theorem split_of_written {contents : List (Option (List Bytes))} {front : Bytes}
    (written : token.Written columns contents front) (rest : Bytes) :
    ∃ pieces, token.split columns (front ++ rest) = some (pieces, rest) ∧
      pieces.map Option.isNone = contents.map Option.isNone := by
  cases written with
  | row values => exact RowLayout.split_of_written values rest
  | @bitmapRow _ bitmap bytes width values =>
    obtain ⟨pieces, found, nulls⟩ := RowLayout.split_of_written values rest
    refine ⟨pieces, ?_, nulls⟩
    have enough : ¬ (bitmap ++ (bytes ++ rest)).length < bitmapSize columns.length := by
      rw [List.length_append]
      omega
    rw [List.append_assoc, split, if_neg enough, List.take_left' width, List.drop_left' width,
      found]

theorem exists_written_of_split {body rest : Bytes} {pieces : List (Option Bytes)}
    (found : token.split columns body = some (pieces, rest)) :
    ∃ contents front, token.Written columns contents front ∧ body = front ++ rest := by
  cases token with
  | row =>
    obtain ⟨contents, front, values, cut⟩ := RowLayout.exists_written_of_split found
    exact ⟨contents, front, .row values, cut⟩
  | bitmapRow =>
    unfold split at found
    dsimp only at found
    split at found
    · cases found
    · rename_i enough
      obtain ⟨contents, front, values, cut⟩ := RowLayout.exists_written_of_split found
      have width := List.length_take_of_le (Nat.le_of_not_lt enough)
      refine ⟨contents, _, .bitmapRow width values, ?_⟩
      rw [List.append_assoc, ← cut, List.take_append_drop]

/-- A body can be cut off if and only if the bytes start with one that is written. -/
theorem isSome_split_iff {bytes : Bytes} : (token.split columns bytes).isSome = true ↔
    ∃ contents front rest, token.Written columns contents front ∧ bytes = front ++ rest := by
  constructor
  · intro found
    obtain ⟨⟨pieces, rest⟩, found⟩ := Option.isSome_iff_exists.1 found
    obtain ⟨contents, front, written, cut⟩ := exists_written_of_split found
    exact ⟨contents, front, rest, written, cut⟩
  · rintro ⟨contents, front, rest, written, rfl⟩
    obtain ⟨pieces, found, -⟩ := split_of_written written rest
    rw [found]
    rfl

/-- Bytes start with one body at most. -/
theorem Written.front_unique {contents contents' : List (Option (List Bytes))}
    {front front' rest rest' : Bytes} (written : token.Written columns contents front)
    (written' : token.Written columns contents' front') (same : front ++ rest = front' ++ rest') :
    front = front' := by
  obtain ⟨pieces, found, -⟩ := split_of_written written rest
  obtain ⟨pieces', found', -⟩ := split_of_written written' rest'
  rw [same] at found
  cases found.symm.trans found'
  exact List.append_cancel_right same

/-- No proper front of a body starts with one. -/
theorem Written.split_eq_none {contents : List (Option (List Bytes))} {front bytes : Bytes}
    (written : token.Written columns contents front) (part : bytes <+: front)
    (proper : bytes ≠ front) : token.split columns bytes = none := by
  cases found : token.split columns bytes with
  | none => rfl
  | some cut =>
    obtain ⟨contents', front', written', rfl⟩ := exists_written_of_split found
    obtain ⟨missing, rfl⟩ := part
    have same : front' ++ (cut.2 ++ missing) = front' ++ cut.2 ++ missing ++ [] := by
      rw [List.append_nil, List.append_assoc]
    have whole := written'.front_unique written same
    rw [List.append_assoc] at whole
    have nothing := List.append_eq_nil_iff.1 (List.self_eq_append_right.1 whole)
    rw [nothing.2, List.append_nil] at proper
    exact absurd rfl proper

end RowToken

/-! ### How far decoding gets -/

/-- How many bytes are read of a scalar value that is not whole: its descriptor at most. -/
def ColumnType.reachScalar (type : ColumnType) (bytes : Bytes) : Nat :=
  if bytes.length < type.descriptorSize then 0 else type.descriptorSize

/-- How many bytes are read of chunks that are not whole: those of the chunks that are. -/
def reachChunks (bytes : Bytes) : Nat :=
  if bytes.length < ChunkLength.width then 0
  else
    let size := ChunkLength.width + (ChunkLength.ofBytes bytes).toNat
    if bytes.length < size then 0 else size + reachChunks (bytes.drop size)
termination_by bytes.length
decreasing_by
  simp only [List.length_drop, ChunkLength.width] at *
  omega

/-- How many bytes are read of a PLP value that is not whole. -/
def reachPlp (bytes : Bytes) : Nat :=
  if bytes.length < PlpTotal.width then 0
  else PlpTotal.width + reachChunks (bytes.drop PlpTotal.width)

/-- How many bytes are read of a value that is not whole. -/
def ColumnType.reach (type : ColumnType) (bytes : Bytes) : Nat :=
  if type.isPlp then reachPlp bytes else type.reachScalar bytes

/-- How many bytes are read of a row: those of the values that are whole, and a part of the first
one that is not. -/
def RowLayout.reach : RowLayout → Bytes → Nat
  | [], _ => 0
  | none :: columns, bytes => RowLayout.reach columns bytes
  | some type :: columns, bytes =>
    match type.split bytes with
    | none => type.reach bytes
    | some (_, rest) => bytes.length - rest.length + RowLayout.reach columns rest

/-- How many bytes are read of the body of a token. -/
def RowToken.reach (token : RowToken) (columns : List ColumnType) (body : Bytes) : Nat :=
  match token with
  | row => (RowLayout.full columns).reach body
  | bitmapRow =>
    let size := bitmapSize columns.length
    if body.length < size then 0
    else size + (RowLayout.ofBitmap (body.take size) columns).reach (body.drop size)

/-- A row that is whole is read as a whole. -/
theorem RowLayout.reach_of_split {columns : RowLayout} {bytes rest : Bytes}
    {pieces : List (Option Bytes)} (found : columns.split bytes = some (pieces, rest)) :
    columns.reach bytes + rest.length = bytes.length := by
  induction columns generalizing bytes pieces with
  | nil =>
    cases found
    exact Nat.zero_add _
  | cons column columns inductionHypothesis =>
    cases column with
    | none =>
      obtain ⟨⟨others, last⟩, tail, same⟩ := Option.map_eq_some_iff.1 found
      cases same
      exact inductionHypothesis tail
    | some type =>
      unfold split at found
      unfold reach
      cases cut : type.split bytes with
      | none =>
        rw [cut] at found
        cases found
      | some pair =>
        obtain ⟨piece, middle⟩ := pair
        rw [cut] at found
        obtain ⟨⟨others, last⟩, tail, same⟩ := Option.map_eq_some_iff.1 found
        cases same
        obtain ⟨contents, front, -, rfl, -⟩ := ColumnType.split_eq_some_iff.1 cut
        have behind := inductionHypothesis tail
        dsimp only
        rw [List.length_append]
        omega

theorem RowToken.reach_of_split {token : RowToken} {columns : List ColumnType}
    {body rest : Bytes} {pieces : List (Option Bytes)}
    (found : token.split columns body = some (pieces, rest)) :
    token.reach columns body + rest.length = body.length := by
  cases token with
  | row => exact RowLayout.reach_of_split found
  | bitmapRow =>
    unfold split at found
    unfold reach
    dsimp only at found ⊢
    split at found
    · cases found
    · rename_i enough
      have behind := RowLayout.reach_of_split found
      rw [List.length_drop] at behind
      rw [if_neg enough]
      omega

/-! ### Decoding moves the cursor only -/

namespace ReceiveBuffer

variable {buffer after : ReceiveBuffer} {pool pool' : Pool} {others : List Slice}

theorem OnlyRead.refl (buffer : ReceiveBuffer) : buffer.OnlyRead buffer := ⟨rfl, rfl⟩

theorem onlyRead_of_readSlice {count : Nat} {slice : Slice}
    (success : buffer.readSlice pool count = .ok (pool', after, slice)) :
    buffer.OnlyRead after := by
  unfold readSlice at success
  split at success
  · split at success
    · cases success
      exact ⟨rfl, rfl⟩
    · cases success
  · cases success

theorem onlyRead_of_reset {index : Nat} (success : buffer.reset index = .ok after) :
    buffer.OnlyRead after := by
  unfold reset at success
  split at success
  · cases success
    exact ⟨rfl, rfl⟩
  · cases success

theorem onlyRead_decodeScalar (buffer : ReceiveBuffer) (pool : Pool) (type : ColumnType) :
    buffer.OnlyRead (buffer.decodeScalar pool type).buffer := by
  unfold decodeScalar readScalarLength
  cases read : buffer.readBytes pool type.descriptorSize with
  | error failure => exact .refl buffer
  | ok found =>
    obtain ⟨past, bytes⟩ := found
    have moved := onlyRead_of_readBytes read
    dsimp only
    cases ScalarLength.ofDescriptor type bytes with
    | null => exact moved
    | of size =>
      dsimp only
      split
      · exact moved
      · split
        · exact moved
        · rename_i start back
          have returned := moved.trans (onlyRead_of_reset back)
          split
          · rename_i taken
            exact returned.trans (onlyRead_of_readSlice taken)
          · exact returned

theorem onlyRead_decodeChunks (buffer : ReceiveBuffer) (pool : Pool) :
    buffer.OnlyRead (buffer.decodeChunks pool).buffer := by
  fun_induction decodeChunks buffer pool with
  | case1 buffer => exact .refl buffer
  | case2 buffer => exact .refl buffer
  | case3 buffer => exact .refl buffer
  | case4 buffer pool _ _ _ pool' after slice taken => exact onlyRead_of_readSlice taken
  | case5 buffer pool _ _ _ pool' after slice taken _ _ _ _ decoded inductionHypothesis =>
    rw [decoded] at inductionHypothesis
    exact (onlyRead_of_readSlice taken).trans inductionHypothesis
  | case6 buffer pool _ _ _ pool' after slice taken _ _ _ _ decoded inductionHypothesis =>
    rw [decoded] at inductionHypothesis
    exact (onlyRead_of_readSlice taken).trans inductionHypothesis

theorem onlyRead_decodePlp (buffer : ReceiveBuffer) (pool : Pool) :
    buffer.OnlyRead (buffer.decodePlp pool).buffer := by
  unfold decodePlp
  split
  · exact .refl buffer
  · split
    · exact ⟨rfl, rfl⟩
    · split
      · exact .refl buffer
      · rename_i pool' after total taken
        have chunks := onlyRead_decodeChunks after pool'
        split
        · rename_i decoded
          rw [decoded] at chunks
          exact (onlyRead_of_readSlice taken).trans chunks
        · rename_i decoded
          rw [decoded] at chunks
          exact (onlyRead_of_readSlice taken).trans chunks

theorem onlyRead_decodeValue (buffer : ReceiveBuffer) (pool : Pool) (type : ColumnType) :
    buffer.OnlyRead (buffer.decodeValue pool type).buffer := by
  unfold decodeValue
  split
  · exact onlyRead_decodePlp buffer pool
  · exact onlyRead_decodeScalar buffer pool type

theorem onlyRead_decodeSlots (buffer : ReceiveBuffer) (pool : Pool) (layout : RowLayout) :
    buffer.OnlyRead (buffer.decodeSlots pool layout).buffer := by
  induction layout generalizing buffer pool with
  | nil => exact .refl buffer
  | cons column columns inductionHypothesis =>
    cases column with
    | none =>
      have rest := inductionHypothesis buffer pool
      unfold decodeSlots
      generalize buffer.decodeSlots pool columns = reading at rest
      obtain ⟨_, _, result⟩ := reading
      cases result <;> exact rest
    | some type =>
      have value := onlyRead_decodeValue buffer pool type
      unfold decodeSlots
      split
      · rename_i decoded
        rw [decoded] at value
        exact value
      · rename_i pool' past slot decoded
        rw [decoded] at value
        have rest := inductionHypothesis past pool'
        generalize past.decodeSlots pool' columns = reading at rest
        obtain ⟨_, _, result⟩ := reading
        cases result <;> exact value.trans rest

/-- Decoding the body of a token moves nothing but the reading cursor. -/
theorem onlyRead_decode (token : RowToken) (buffer : ReceiveBuffer) (pool : Pool)
    (columns : List ColumnType) :
    buffer.OnlyRead (token.decode buffer pool columns).buffer := by
  cases token with
  | row => exact onlyRead_decodeSlots buffer pool _
  | bitmapRow =>
    unfold RowToken.decode decodeBitmap
    dsimp only
    split
    · exact .refl buffer
    · rename_i read
      exact (onlyRead_of_readBytes read).trans (onlyRead_decodeSlots _ pool _)

/-- Where the cursor is after some bytes have been taken off the front. -/
theorem Sound.eq_of_takes {taken : List Slice} {front rest : Bytes}
    (sound : buffer.Sound pool others) (takes : buffer.Takes pool others after pool' taken rest)
    (moved : buffer.OnlyRead after) (cut : buffer.readable pool = front ++ rest) :
    after = { buffer with reader := buffer.reader + front.length } := by
  have before := length_readable sound.inOrder
  have left := length_readable takes.sound.inOrder
  rw [cut, List.length_append, sound.readableBytes] at before
  rw [takes.readable, takes.sound.readableBytes, moved.2] at left
  have ordered := sound.reader_le
  have ordered' := takes.sound.reader_le
  rw [moved.2] at ordered'
  obtain ⟨block, reader, writer⟩ := after
  obtain ⟨rfl, rfl⟩ := moved
  dsimp only at left ordered'
  exact congrArg (ReceiveBuffer.mk buffer.block · buffer.writer) (by omega)

/-! ### Decoding that runs out of bytes -/

/-- The failure of a reading that ran out of bytes. -/
abbrev RunsOut {Item : Type} (reading : Reading Item) : Prop :=
  reading.result = .error (.client .decodePreconditionViolated)

/-- A reading that ran out of bytes so many bytes past where it started. -/
structure StopsAt {Item : Type} (buffer : ReceiveBuffer) (count : Nat) (reading : Reading Item) :
    Prop where
  runsOut : RunsOut reading
  buffer : reading.buffer = { buffer with reader := buffer.reader + count }

theorem stopsAt_zero {Item : Type} (buffer : ReceiveBuffer) (pool : Pool) :
    buffer.StopsAt 0 (.cutShort pool buffer : Reading Item) :=
  ⟨rfl, rfl⟩

theorem Sound.advance_eq {count : Nat} (sound : buffer.Sound pool others)
    (within : count ≤ buffer.readableBytes) :
    buffer.advance count = { buffer with reader := buffer.reader + count } :=
  congrArg (ReceiveBuffer.mk buffer.block · buffer.writer) (reader_advance sound.inOrder within)

/-- A reading that starts some bytes later stops so much later. -/
theorem StopsAt.of_advance {Item : Type} {reading : Reading Item} {count more : Nat}
    (stops : StopsAt { buffer with reader := buffer.reader + count } more reading) :
    buffer.StopsAt (count + more) reading := by
  refine ⟨stops.runsOut, stops.buffer.trans ?_⟩
  exact congrArg (ReceiveBuffer.mk buffer.block · buffer.writer) (Nat.add_assoc _ _ _)

theorem Sound.decodeScalar_stopsAt {type : ColumnType} (sound : buffer.Sound pool others)
    (short : type.afterScalar (buffer.readable pool) = none) :
    buffer.StopsAt (type.reachScalar (buffer.readable pool)) (buffer.decodeScalar pool type) := by
  have length := length_readable sound.inOrder
  unfold ColumnType.afterScalar at short
  unfold ReceiveBuffer.decodeScalar readScalarLength readBytes ColumnType.reachScalar
  by_cases enough : type.descriptorSize ≤ buffer.readableBytes
  · have moved := readableBytes_advance_add enough
    rw [if_neg (by omega)] at short
    rw [if_pos enough, if_neg (by omega)]
    dsimp only at short ⊢
    rw [peek_eq, ScalarLength.ofDescriptor_take]
    cases header : ScalarLength.ofDescriptor type (buffer.readable pool) with
    | null =>
      rw [header, ScalarLength.size, if_neg (Nat.not_lt_zero _)] at short
      cases short
    | of size =>
      rw [header, List.length_drop, ScalarLength.size] at short
      by_cases missing : (buffer.advance type.descriptorSize).readableBytes < size.toNat
      · dsimp only
        rw [if_pos missing]
        exact ⟨rfl, sound.advance_eq enough⟩
      · rw [if_neg (by omega)] at short
        cases short
  · rw [if_neg enough, if_pos (by omega)]
    exact buffer.stopsAt_zero pool

/-- Where the chunks end that start at the cursor. -/
theorem afterChunks_readable (order : buffer.InOrder pool) :
    afterChunks (buffer.readable pool) =
      if buffer.readableBytes < ChunkLength.width then none
      else
        let length := ChunkLength.ofBytes (buffer.peek pool ChunkLength.width)
        if buffer.readableBytes < ChunkLength.width + length.toNat then none
        else
          let rest := (buffer.readable pool).drop (ChunkLength.width + length.toNat)
          if length.isTerminator then some rest else afterChunks rest := by
  have count := length_readable order
  have header : ChunkLength.ofBytes (buffer.peek pool ChunkLength.width) =
      ChunkLength.ofBytes (buffer.readable pool) := by
    rw [peek_eq, ChunkLength.ofBytes_take]
  rw [afterChunks, count, header]
  by_cases enough : buffer.readableBytes < ChunkLength.width
  · rw [if_pos enough, if_pos enough]
  · rw [if_neg enough, if_neg enough]
    dsimp only
    rw [List.length_drop, List.drop_drop, count]
    cases ends : (ChunkLength.ofBytes (buffer.readable pool)).isTerminator with
    | true =>
      have empty := ChunkLength.eq_zero_of_isTerminator ends
      have size : ChunkLength.toNat ⟨0⟩ = 0 := rfl
      rw [if_pos rfl, empty, size, Nat.add_zero, if_neg enough, if_pos rfl]
    | false =>
      rw [if_neg Bool.false_ne_true, if_neg Bool.false_ne_true]
      by_cases whole : buffer.readableBytes - ChunkLength.width <
          (ChunkLength.ofBytes (buffer.readable pool)).toNat
      · rw [if_pos whole, if_pos (by omega)]
      · rw [if_neg whole, if_neg (by omega)]

/-- A slice that was read was taken off the front. -/
theorem Sound.takes_of_readSlice {count : Nat} {slice : Slice} (sound : buffer.Sound pool others)
    (held : buffer.block.isSome) (within : count ≤ buffer.readableBytes)
    (success : buffer.readSlice pool count = .ok (pool', after, slice)) :
    buffer.Takes pool others after pool' [slice] ((buffer.readable pool).drop count) := by
  obtain ⟨pool'', slice', read, taken, -, same⟩ := sound.readSlice held within
  cases read.symm.trans success
  refine ⟨taken, rfl, ?_, same, List.forall_mem_singleton.2 (block_of_readSlice read)⟩
  rw [readable_congr fun other _ => same other, readable_advance sound.inOrder within]

theorem Sound.readSlice_ne_error {count : Nat} {failure : Failure}
    (sound : buffer.Sound pool others) (held : buffer.block.isSome)
    (within : count ≤ buffer.readableBytes) : buffer.readSlice pool count ≠ .error failure := by
  obtain ⟨_, _, read, -⟩ := sound.readSlice held within
  rw [read]
  exact fun same => by cases same

/-- The chunks that follow one that was read end where all of them end. -/
theorem Sound.afterChunks_of_readSlice {slice : Slice} (sound : buffer.Sound pool others)
    (held : buffer.block.isSome) (enough : ¬ buffer.readableBytes < ChunkLength.width)
    (whole : ¬ buffer.readableBytes <
      ChunkLength.width + (ChunkLength.ofBytes (buffer.peek pool ChunkLength.width)).toNat)
    (goes : ¬ (ChunkLength.ofBytes (buffer.peek pool ChunkLength.width)).isTerminator = true)
    (success : buffer.readSlice pool
      (ChunkLength.width + (ChunkLength.ofBytes (buffer.peek pool ChunkLength.width)).toNat) =
        .ok (pool', after, slice)) :
    after.Sound pool' (slice :: others) ∧ after.block.isSome ∧
      afterChunks (after.readable pool') = afterChunks (buffer.readable pool) := by
  have takes := sound.takes_of_readSlice held (Nat.le_of_not_lt whole) success
  refine ⟨takes.sound, takes.block ▸ held, ?_⟩
  rw [takes.readable, afterChunks_readable sound.inOrder, if_neg enough]
  dsimp only
  rw [if_neg whole, if_neg goes]

/-- Chunks that are not whole are read up to the first one that is not. -/
theorem reachChunks_readable (order : buffer.InOrder pool) :
    reachChunks (buffer.readable pool) =
      if buffer.readableBytes < ChunkLength.width then 0
      else
        let size := ChunkLength.width +
          (ChunkLength.ofBytes (buffer.peek pool ChunkLength.width)).toNat
        if buffer.readableBytes < size then 0
        else size + reachChunks ((buffer.readable pool).drop size) := by
  rw [reachChunks, length_readable order, peek_eq, ChunkLength.ofBytes_take]

theorem Sound.decodeChunks_stopsAt (sound : buffer.Sound pool others)
    (held : buffer.block.isSome) (short : afterChunks (buffer.readable pool) = none) :
    buffer.StopsAt (reachChunks (buffer.readable pool)) (buffer.decodeChunks pool) := by
  rw [reachChunks_readable sound.inOrder]
  fun_induction ReceiveBuffer.decodeChunks buffer pool generalizing others with
  | case1 buffer pool cut =>
    rw [if_pos cut]
    exact buffer.stopsAt_zero pool
  | case2 buffer pool enough length =>
    rename_i missing
    rw [if_neg enough, if_pos missing]
    exact buffer.stopsAt_zero pool
  | case3 buffer pool enough length whole failure =>
    rename_i failed
    exact absurd failed (sound.readSlice_ne_error held (Nat.le_of_not_lt whole))
  | case4 buffer pool enough length whole pool' after slice taken =>
    rename_i ends
    rw [afterChunks_readable sound.inOrder, if_neg enough] at short
    dsimp only at short
    rw [if_neg whole, if_pos ends] at short
    cases short
  | case5 buffer pool enough length whole pool' after slice taken goes _ _ _ decoded =>
    rename_i inductionHypothesis
    obtain ⟨left, kept, same⟩ := sound.afterChunks_of_readSlice held enough whole goes taken
    have fails := inductionHypothesis left kept (same.trans short)
    rw [decoded] at fails
    cases fails.runsOut
  | case6 buffer pool enough length whole pool' after slice taken goes _ _ _ decoded =>
    rename_i inductionHypothesis
    obtain ⟨left, kept, same⟩ := sound.afterChunks_of_readSlice held enough whole goes taken
    have fails := inductionHypothesis left kept (same.trans short)
    rw [decoded, ← reachChunks_readable left.inOrder] at fails
    have takes := sound.takes_of_readSlice held (Nat.le_of_not_lt whole) taken
    obtain ⟨_, _, read, -⟩ := sound.readSlice held (Nat.le_of_not_lt whole)
    cases read.symm.trans taken
    rw [if_neg enough, if_neg whole, ← takes.readable]
    rw [sound.advance_eq (Nat.le_of_not_lt whole)] at fails ⊢
    exact ⟨fails.of_advance.runsOut, fails.of_advance.buffer⟩

theorem Sound.decodePlp_stopsAt (sound : buffer.Sound pool others) (held : buffer.block.isSome)
    (short : afterPlp (buffer.readable pool) = none) :
    buffer.StopsAt (reachPlp (buffer.readable pool)) (buffer.decodePlp pool) := by
  have length := length_readable sound.inOrder
  have total : PlpTotal.ofBytes (buffer.peek pool PlpTotal.width) =
      PlpTotal.ofBytes (buffer.readable pool) := by
    rw [peek_eq, PlpTotal.ofBytes_take]
  unfold afterPlp at short
  rw [length, ← total] at short
  unfold ReceiveBuffer.decodePlp reachPlp
  rw [length]
  by_cases enough : buffer.readableBytes < PlpTotal.width
  · rw [if_pos enough, if_pos enough]
    exact buffer.stopsAt_zero pool
  · rw [if_neg enough] at short ⊢
    rw [if_neg enough]
    by_cases absent : (PlpTotal.ofBytes (buffer.peek pool PlpTotal.width)).isNull = true
    · rw [if_pos absent] at short
      cases short
    · rw [if_neg absent] at short ⊢
      have within := Nat.le_of_not_lt enough
      obtain ⟨pool', slice, read, -⟩ := sound.readSlice held within
      have takes := sound.takes_of_readSlice held within read
      have fails := takes.sound.decodeChunks_stopsAt (takes.block ▸ held)
        (takes.readable.symm ▸ short)
      rw [takes.readable] at fails
      rw [read]
      dsimp only
      generalize (buffer.advance PlpTotal.width).decodeChunks pool' = reading at fails
      obtain ⟨_, _, result⟩ := reading
      cases fails.runsOut
      rw [sound.advance_eq within] at fails
      exact ⟨rfl, fails.of_advance.buffer⟩

theorem Sound.decodeValue_stopsAt {type : ColumnType} (sound : buffer.Sound pool others)
    (held : buffer.block.isSome) (short : type.split (buffer.readable pool) = none) :
    buffer.StopsAt (type.reach (buffer.readable pool)) (buffer.decodeValue pool type) := by
  have missing := type.afterValue_eq_split (buffer.readable pool)
  rw [short] at missing
  unfold ColumnType.afterValue at missing
  unfold ReceiveBuffer.decodeValue ColumnType.reach
  by_cases plp : type.isPlp
  · rw [if_pos plp] at missing ⊢
    rw [if_pos plp]
    exact sound.decodePlp_stopsAt held missing
  · rw [if_neg plp] at missing ⊢
    rw [if_neg plp]
    exact sound.decodeScalar_stopsAt missing

theorem Sound.decodeSlots_stopsAt {layout : RowLayout} (sound : buffer.Sound pool others)
    (held : buffer.block.isSome) (short : layout.split (buffer.readable pool) = none) :
    buffer.StopsAt (layout.reach (buffer.readable pool)) (buffer.decodeSlots pool layout) := by
  induction layout generalizing buffer pool others with
  | nil => cases short
  | cons column columns inductionHypothesis =>
    cases column with
    | none =>
      have fails := inductionHypothesis sound held (Option.map_eq_none_iff.1 short)
      unfold ReceiveBuffer.decodeSlots RowLayout.reach
      generalize buffer.decodeSlots pool columns = reading at fails
      obtain ⟨_, _, result⟩ := reading
      cases fails.runsOut
      exact fails
    | some type =>
      unfold ReceiveBuffer.decodeSlots RowLayout.reach
      cases first : type.split (buffer.readable pool) with
      | none =>
        have fails := sound.decodeValue_stopsAt held first
        generalize buffer.decodeValue pool type = reading at fails
        obtain ⟨_, _, result⟩ := reading
        cases fails.runsOut
        exact ⟨rfl, fails.buffer⟩
      | some cut =>
        obtain ⟨slot, decodes⟩ := sound.decodeValue held first
        rw [RowLayout.split, first] at short
        obtain ⟨contents, front, -, behind, -⟩ := ColumnType.split_eq_some_iff.1 first
        have takes := decodes.takes
        have moved := sound.eq_of_takes takes (onlyRead_decodeValue buffer pool type) behind
        have fails := inductionHypothesis takes.sound (takes.block ▸ held)
          (takes.readable.symm ▸ Option.map_eq_none_iff.1 short)
        have result := decodes.result
        have count : (buffer.readable pool).length - cut.2.length = front.length := by
          rw [behind, List.length_append, Nat.add_sub_cancel]
        rw [takes.readable] at fails
        dsimp only
        rw [count]
        generalize buffer.decodeValue pool type = reading at result moved fails
        obtain ⟨pool', past, _⟩ := reading
        cases result
        dsimp only at moved fails ⊢
        generalize past.decodeSlots pool' columns = reading at fails
        obtain ⟨_, _, result⟩ := reading
        cases fails.runsOut
        subst moved
        exact ⟨rfl, fails.of_advance.buffer⟩

/-- Decoding runs out of bytes where no body can be cut off. -/
theorem Sound.decode_stopsAt {token : RowToken} {columns : List ColumnType}
    (sound : buffer.Sound pool others) (held : buffer.block.isSome)
    (short : token.split columns (buffer.readable pool) = none) :
    buffer.StopsAt (token.reach columns (buffer.readable pool))
      (token.decode buffer pool columns) := by
  cases token with
  | row =>
    have fails := sound.decodeSlots_stopsAt held short
    exact ⟨congrArg (Except.map Row.mk) fails.runsOut, fails.buffer⟩
  | bitmapRow =>
    have length := length_readable sound.inOrder
    unfold RowToken.split at short
    dsimp only at short
    unfold RowToken.decode RowToken.reach decodeBitmap readBytes
    dsimp only
    by_cases enough : bitmapSize columns.length ≤ buffer.readableBytes
    · rw [if_neg (by omega), ← readable_advance sound.inOrder enough, ← peek_eq] at short
      rw [if_pos enough, if_neg (by omega), ← readable_advance sound.inOrder enough, ← peek_eq]
      have fails := (sound.advance enough).decodeSlots_stopsAt held short
      rw [sound.advance_eq enough] at fails ⊢
      exact ⟨congrArg (Except.map Row.mk) fails.runsOut, fails.of_advance.buffer⟩
    · rw [if_neg enough, if_pos (by omega)]
      exact buffer.stopsAt_zero pool

end ReceiveBuffer

/-! ### Asking and decoding agree -/

namespace Session

/-- Asking whether the body of a token is readable gives an answer, and changes nothing. -/
def Answers (session : Session) (token : RowToken) (columns : List ColumnType) (whole : Bool) :
    Prop :=
  token.canDecode session.buffer session.pool columns = ⟨session.pool, session.buffer, .ok whole⟩

variable {session : Session}

theorem Sound.answers (sound : session.Sound) (token : RowToken) (columns : List ColumnType) :
    session.Answers token columns (token.split columns session.unread).isSome :=
  ReceiveBuffer.Sound.canDecode token columns sound

/-- The answer is whether a body can be cut off the readable bytes. -/
theorem answers_iff {others : List Slice} (sound : session.buffer.Sound session.pool others)
    {token : RowToken} {columns : List ColumnType} {whole : Bool} :
    session.Answers token columns whole ↔
      (token.split columns session.unread).isSome = whole := by
  have answers := sound.canDecode token columns
  constructor
  · intro asked
    exact Except.ok.inj (Reading.mk.inj (answers.symm.trans asked)).2.2
  · rintro rfl
    exact answers

/-- While a body has not arrived as a whole the answer is no, and from then on it is yes. -/
theorem Sound.answers_of_written (sound : session.Sound) {token : RowToken}
    {columns : List ColumnType} {contents : List (Option (List Bytes))} {front : Bytes}
    (written : token.Written columns contents front) :
    (session.unread <+: front → session.unread ≠ front → session.Answers token columns false) ∧
      (front <+: session.unread → session.Answers token columns true) := by
  have answers := sound.answers token columns
  constructor
  · intro part proper
    rwa [written.split_eq_none part proper] at answers
  · rintro ⟨rest, same⟩
    rwa [RowToken.isSome_split_iff.2 ⟨contents, front, rest, written, same.symm⟩] at answers

/-- A body that can be cut off is decoded into a row that holds its pieces, and the cursor is at its
end. -/
theorem Sound.decode_of_split (sound : session.Sound) (held : session.buffer.block.isSome)
    {token : RowToken} {columns : List ColumnType} {pieces : List (Option Bytes)}
    {front rest : Bytes} (found : token.split columns session.unread = some (pieces, rest))
    (cut : session.unread = front ++ rest) :
    ∃ pool row, token.decode session.buffer session.pool columns =
        ⟨pool, { session.buffer with reader := session.buffer.reader + front.length }, .ok row⟩ ∧
      (∀ slot ∈ row.slots, slot.IsFresh) ∧ row.slots.map (Slot.wire? pool) = pieces ∧
      ∀ slice ∈ row.slices, pool.Holds slice := by
  obtain ⟨pool, after, row, decoded, takes, fresh, wires⟩ :=
    ReceiveBuffer.Sound.decode sound held found
  have moved := ReceiveBuffer.onlyRead_decode token session.buffer session.pool columns
  rw [decoded] at moved
  have place := ReceiveBuffer.Sound.eq_of_takes sound takes moved cut
  exact ⟨pool, row, place ▸ decoded, fresh, wires, fun slice member =>
    takes.sound.accounts.holds (List.mem_append_right _ (List.mem_append_left _ member))⟩

/-- A body that is readable as a whole is decoded, and a slot is NULL if its column is. -/
theorem Sound.decode_of_written (sound : session.Sound) (held : session.buffer.block.isSome)
    {token : RowToken} {columns : List ColumnType} {contents : List (Option (List Bytes))}
    {front rest : Bytes} (written : token.Written columns contents front)
    (cut : session.unread = front ++ rest) :
    ∃ pool row, token.decode session.buffer session.pool columns =
        ⟨pool, { session.buffer with reader := session.buffer.reader + front.length }, .ok row⟩ ∧
      row.slots.map Slot.isNull = contents.map Option.isNone := by
  obtain ⟨pieces, found, nulls⟩ := RowToken.split_of_written written rest
  rw [← cut] at found
  obtain ⟨pool, row, decoded, fresh, wires, -⟩ := sound.decode_of_split held found cut
  refine ⟨pool, row, decoded, ?_⟩
  rw [← nulls, ← wires, List.map_map]
  refine List.map_congr_left fun slot member => ?_
  rcases fresh slot member with rfl | ⟨value, rfl⟩ <;> rfl

/-- Asking whether the body of a row is readable changes nothing, and the answer is yes if the
readable bytes start with one that is written as the grammar has it. There is one such front at
most, it is not there before its last byte has arrived, and it stays whatever follows. Decoding
agrees with the answer: it moves the cursor past the front and gives a row that has NULL where
the front has, or it fails for want of bytes. -/
theorem decoding_accepts_written_rows (reachable : session.Reachable)
    (held : session.buffer.block.isSome) (token : RowToken) (columns : List ColumnType) :
    ∃ whole, session.Answers token columns whole ∧
      (whole = true ↔ ∃ contents front rest,
        token.Written columns contents front ∧ session.unread = front ++ rest) ∧
      (∀ contents front rest, token.Written columns contents front →
        session.unread = front ++ rest →
          (∀ contents' front' rest', token.Written columns contents' front' →
            session.unread = front' ++ rest' → front' = front) ∧
          (∀ other : Session, other.Reachable →
            (other.unread <+: front → other.unread ≠ front → other.Answers token columns false) ∧
            (front <+: other.unread → other.Answers token columns true)) ∧
          ∃ pool row, token.decode session.buffer session.pool columns =
              ⟨pool, { session.buffer with reader := session.buffer.reader + front.length },
                .ok row⟩ ∧
            row.slots.map Slot.isNull = contents.map Option.isNone) ∧
      (whole = false → (token.decode session.buffer session.pool columns).result =
        .error (.client .decodePreconditionViolated)) := by
  have sound := reachable.sound
  refine ⟨_, sound.answers token columns, RowToken.isSome_split_iff, ?_, fun short => ?_⟩
  · intro contents front rest written cut
    refine ⟨fun contents' front' rest' written' cut' => ?_, fun other reachable' => ?_, ?_⟩
    · exact written'.front_unique written (cut'.symm.trans cut)
    · exact reachable'.sound.answers_of_written written
    · exact sound.decode_of_written held written cut
  · have nothing := Option.not_isSome_iff_eq_none.1 (Bool.eq_false_iff.1 short)
    exact (ReceiveBuffer.Sound.decode_stopsAt sound held nothing).runsOut

/-- A column for large binary objects, and two for small numbers. -/
def threeColumns : List ColumnType :=
  [⟨.varbinaryMax, .part, 0, .usAscii, 0, 0⟩, ⟨.intN, .byte, 4, .usAscii, 0, 0⟩,
    ⟨.intN, .byte, 4, .usAscii, 0, 0⟩]

/-- A row whose bitmap leaves out the first number: an object in two chunks, and a number. -/
def bitmapBody : Bytes :=
  [2] ++ (PlpTotal.unknown.encode ++ ((ChunkLength.mk 2).encode ++ [1, 2] ++
    ((ChunkLength.mk 3).encode ++ [3, 4, 5] ++ (ChunkLength.mk 0).encode)) ++ ([1] ++ [7] ++ []))

/-- A session that has received the row and the byte that announces the next. -/
def bitmapSession : Session :=
  (Session.fresh {} threeColumns).after [.buffer (.append (bitmapBody ++ [0xD2]))]

theorem decoding_accepts_written_rows_bitmapSession :
    bitmapSession.Answers .bitmapRow threeColumns true ∧
      ∃ pool row, RowToken.bitmapRow.decode bitmapSession.buffer bitmapSession.pool threeColumns =
          ⟨pool, { bitmapSession.buffer with reader := 28 }, .ok row⟩ ∧
        row.slots.map Slot.isNull = [false, true, false] := by
  have new : Session.new {} threeColumns = .ok (Session.fresh {} threeColumns) := rfl
  have reachable : bitmapSession.Reachable := (Session.Reachable.new new).after (by decide)
  have object : WrittenChunks [[1, 2], [3, 4, 5]] ((ChunkLength.mk 2).encode ++ [1, 2] ++
      ((ChunkLength.mk 3).encode ++ [3, 4, 5] ++ (ChunkLength.mk 0).encode)) :=
    .chunk rfl rfl (.chunk rfl rfl .terminator)
  have number : WrittenValue ⟨.intN, .byte, 4, .usAscii, 0, 0⟩ (some [[7]]) ([1] ++ [7]) :=
    .scalar rfl rfl rfl rfl
  have written : RowToken.bitmapRow.Written threeColumns
      [some [[1, 2], [3, 4, 5]], none, some [[7]]] bitmapBody :=
    .bitmapRow rfl (.present (.plp rfl rfl object) (.absent (.present number .nil)))
  have cut : bitmapSession.unread = bitmapBody ++ [0xD2] := by decide +kernel
  obtain ⟨whole, answer, accepts, reads, -⟩ :=
    decoding_accepts_written_rows reachable (by decide) .bitmapRow threeColumns
  obtain ⟨-, -, decoded⟩ := reads _ _ _ written cut
  exact ⟨accepts.2 ⟨_, _, _, written, cut⟩ ▸ answer, decoded⟩

end Session

end TabularStream
