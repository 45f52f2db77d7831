/-
This file holds a second version of the reader of row tokens, in which everything that a step relies
upon is checked where it does so. Bytes are looked at only if so many are readable and all of them
are inside of the block; the cursor is moved past readable bytes only, and set back only to a place
in front of the writing cursor; a length is parsed only from enough bytes; a bitmap is asked only for
columns that it has a bit for; and a row is given data only for a column that it has and that is
NULL so far. The checked reader fails where a check does.

No check fails for a buffer that is sound. Asking whether a row is whole never reaches one, whatever
the bytes are. Decoding is done after asking, so it is enough to see that every check holds where
decoding succeeds.
-/

import TabularStream.Proofs.Checked
import TabularStream.Proofs.CutShort

namespace TabularStream

namespace Checked

/-! ### Bytes of a buffer -/

section Bytes

variable (buffer : ReceiveBuffer) (pool : Pool)

/-- The readable bytes, which have to be inside of the block. -/
def readable : Except Failure Bytes :=
  if buffer.reader ≤ buffer.capacity ∧ buffer.readableBytes ≤ buffer.capacity - buffer.reader then
    .ok (buffer.readable pool)
  else .error .outOfRange

/-- The first `count` readable bytes, of which there have to be so many. -/
def front (count : Nat) : Except Failure Bytes := do
  let bytes ← readable buffer pool
  if bytes.length < count then .error .precondition else .ok (bytes.take count)

/-- Read the first `count` bytes and move past them. -/
def take (count : Nat) : Except Failure (ReceiveBuffer × Bytes) := do
  let bytes ← front buffer pool count
  let past ← buffer.skip count
  return (past, bytes)

/-- Fail for want of bytes unless so many are readable. -/
def need (count : Nat) : Except Failure Unit :=
  if buffer.readableBytes < count then .error (.client .decodePreconditionViolated) else .ok ()

theorem readableBytes_of_skip {buffer after : ReceiveBuffer} {count : Nat}
    (success : buffer.skip count = .ok after) :
    after.readableBytes + count = buffer.readableBytes := by
  unfold ReceiveBuffer.skip at success
  split at success
  · rename_i within
    cases success
    exact ReceiveBuffer.readableBytes_advance_add within
  · cases success

theorem readableBytes_of_take {buffer after : ReceiveBuffer} {pool : Pool} {count : Nat}
    {bytes : Bytes} (success : take buffer pool count = .ok (after, bytes)) :
    after.readableBytes + count = buffer.readableBytes := by
  obtain ⟨looked, -, success⟩ := bind_inversion success
  obtain ⟨past, moved, done⟩ := bind_inversion success
  cases done
  exact readableBytes_of_skip moved

end Bytes

/-! ### Asking whether a row is whole -/

/-- Move past a scalar value. -/
def passScalar (buffer : ReceiveBuffer) (pool : Pool) (type : ColumnType) :
    Except Failure (ReceiveBuffer × Bool) :=
  if buffer.canReadScalarLength type then do
    let (past, descriptor) ← take buffer pool type.descriptorSize
    match ← ScalarLength.parse type descriptor with
    | .null => return (past, true)
    | .of size =>
      if past.readableBytes < size.toNat then return (past, false)
      else return (← past.skip size.toNat, true)
  else return (buffer, false)

/-- Move past chunks, up to the empty one. -/
def passChunks (buffer : ReceiveBuffer) (pool : Pool) : Except Failure (ReceiveBuffer × Bool) :=
  if buffer.canReadChunkLength then
    match _header : take buffer pool ChunkLength.width with
    | .error failure => .error failure
    | .ok (past, header) =>
      match chunkLength header with
      | .error failure => .error failure
      | .ok length =>
        if length.isTerminator then .ok (past, true)
        else if past.readableBytes < length.toNat then .ok (past, false)
        else
          match _payload : past.skip length.toNat with
          | .error failure => .error failure
          | .ok after => passChunks after pool
  else .ok (buffer, false)
termination_by buffer.readableBytes
decreasing_by
  have header := readableBytes_of_take _header
  have payload := readableBytes_of_skip _payload
  simp only [ChunkLength.width] at header
  omega

/-- Move past a PLP value. -/
def passPlp (buffer : ReceiveBuffer) (pool : Pool) : Except Failure (ReceiveBuffer × Bool) :=
  if buffer.canReadTotal then do
    let (past, header) ← take buffer pool PlpTotal.width
    let total ← total header
    if total.isNull then return (past, true) else passChunks past pool
  else return (buffer, false)

/-- Move past the value of a column. -/
def passValue (buffer : ReceiveBuffer) (pool : Pool) (type : ColumnType) :
    Except Failure (ReceiveBuffer × Bool) :=
  if type.isPlp then passPlp buffer pool else passScalar buffer pool type

/-- Does the bitmap, if there is one, leave out a column? It has to have a bit for the column. -/
def leftOut (bitmap : Option Bytes) (index : Nat) : Except Failure Bool :=
  match bitmap with
  | none => .ok false
  | some bytes =>
    if index / 8 < bytes.length then .ok (isMarkedNull bytes index) else .error .outOfRange

/-- Move past the values of the columns from the given index on. -/
def passColumns (bitmap : Option Bytes) (buffer : ReceiveBuffer) (pool : Pool) (index : Nat) :
    List ColumnType → Except Failure (ReceiveBuffer × Bool)
  | [] => .ok (buffer, true)
  | type :: types => do
    if ← leftOut bitmap index then passColumns bitmap buffer pool (index + 1) types
    else
      match ← passValue buffer pool type with
      | (past, true) => passColumns bitmap past pool (index + 1) types
      | (past, false) => return (past, false)

/-- Is the body of a token readable? The cursor is set back. -/
def canDecode (token : RowToken) (buffer : ReceiveBuffer) (pool : Pool)
    (columns : List ColumnType) : Except Failure (ReceiveBuffer × Bool) :=
  match token with
  | .row => do
    let (past, whole) ← passColumns none buffer pool 0 columns
    return (← past.reset buffer.reader, whole)
  | .bitmapRow =>
    if buffer.readableBytes < bitmapSize columns.length then return (buffer, false)
    else do
      let (body, bitmap) ← take buffer pool (bitmapSize columns.length)
      let (past, whole) ← passColumns (some bitmap) body pool 0 columns
      return (← past.reset buffer.reader, whole)

/-! ### Decoding -/

/-- Read a scalar value as one slice, its descriptor included. -/
def decodeScalar (buffer : ReceiveBuffer) (pool : Pool) (type : ColumnType) :
    Except Failure (Pool × ReceiveBuffer × Slot) := do
  need buffer type.descriptorSize
  let (past, descriptor) ← take buffer pool type.descriptorSize
  match ← ScalarLength.parse type descriptor with
  | .null => return (pool, past, .null)
  | .of size =>
    need past size.toNat
    let start ← past.reset buffer.reader
    let (pool, after, slice) ← start.readSlice pool (type.descriptorSize + size.toNat)
    return (pool, after, .owned (.scalar (some slice)))

/-- Read chunks up to the empty one, each as a slice with its length. -/
def decodeChunks (buffer : ReceiveBuffer) (pool : Pool) :
    Except Failure (Pool × ReceiveBuffer × List Slice) := do
  need buffer ChunkLength.width
  let header ← front buffer pool ChunkLength.width
  let length ← chunkLength header
  need buffer (ChunkLength.width + length.toNat)
  match _success : buffer.readSlice pool (ChunkLength.width + length.toNat) with
  | .error failure => .error failure
  | .ok (pool', after, slice) =>
    if length.isTerminator then .ok (pool', after, [slice])
    else
      (decodeChunks after pool').map fun decoded =>
        (decoded.1, decoded.2.1, slice :: decoded.2.2)
termination_by buffer.readableBytes
decreasing_by
  have shorter := ReceiveBuffer.readableBytes_of_readSlice _success
  simp only [ChunkLength.width] at *
  omega

/-- Read a PLP value as slices of its total, its chunks and its terminator. -/
def decodePlp (buffer : ReceiveBuffer) (pool : Pool) :
    Except Failure (Pool × ReceiveBuffer × Slot) := do
  need buffer PlpTotal.width
  let header ← front buffer pool PlpTotal.width
  let total ← total header
  if total.isNull then return (pool, ← buffer.skip PlpTotal.width, .null)
  else
    let (pool, after, first) ← buffer.readSlice pool PlpTotal.width
    let (pool, after, chunks) ← decodeChunks after pool
    return (pool, after, .owned (.chunked (Composite.ofList (first :: chunks))))

/-- Read the value of a column. -/
def decodeValue (buffer : ReceiveBuffer) (pool : Pool) (type : ColumnType) :
    Except Failure (Pool × ReceiveBuffer × Slot) :=
  if type.isPlp then decodePlp buffer pool else decodeScalar buffer pool type

/-- Give a row what was read for a column. -/
def fill (row : Row) (index : Nat) (slot : Slot) : Except Failure Row :=
  match slot.value? with
  | none => .ok row
  | some value => row.put index value

/-- Fill a row with the values of the columns from the given index on. -/
def decodeColumns (bitmap : Option Bytes) (buffer : ReceiveBuffer) (pool : Pool) (row : Row)
    (index : Nat) : List ColumnType → Except Failure (Pool × ReceiveBuffer × Row)
  | [] => .ok (pool, buffer, row)
  | type :: types => do
    if ← leftOut bitmap index then decodeColumns bitmap buffer pool row (index + 1) types
    else
      let (pool, after, slot) ← decodeValue buffer pool type
      let row ← fill row index slot
      decodeColumns bitmap after pool row (index + 1) types

/-- A row of NULL columns. A slot takes no more room than the column that it is for, so there is
room for the row. -/
def blankRow (columns : List ColumnType) : Row := ⟨List.replicate columns.length .null⟩

/-- Read the body of a token. -/
def decode (token : RowToken) (buffer : ReceiveBuffer) (pool : Pool) (columns : List ColumnType) :
    Except Failure (Pool × ReceiveBuffer × Row) :=
  match token with
  | .row => decodeColumns none buffer pool (blankRow columns) 0 columns
  | .bitmapRow => do
    need buffer (bitmapSize columns.length)
    let (body, bitmap) ← take buffer pool (bitmapSize columns.length)
    decodeColumns (some bitmap) body pool (blankRow columns) 0 columns

/-! ### Tokens -/

/-- Read the next row token, if it is readable as a whole. -/
def resume (buffer : ReceiveBuffer) (pool : Pool) (columns : List ColumnType) :
    Except Failure (Pool × ReceiveBuffer × Resumed) :=
  if buffer.readableBytes < 1 then return (pool, buffer, .needsMore)
  else do
    match ← front buffer pool 1 with
    | [] => .error .outOfRange
    | byte :: _ =>
      match RowToken.ofByte? byte with
      | none => return (pool, buffer, .unexpected .unexpectedToken)
      | some token =>
        let body ← buffer.skip 1
        let (body, whole) ← canDecode token body pool columns
        if whole then
          let (pool, after, row) ← decode token body pool columns
          return (pool, after, .row row)
        else return (pool, ← body.reset buffer.reader, .needsMore)

/-! ### No check fails -/

section Agreement

variable {buffer past after : ReceiveBuffer} {pool pool' : Pool} {others : List Slice}

theorem readable_eq (sound : buffer.Sound pool others) :
    readable buffer pool = .ok (buffer.readable pool) := by
  have ordered := sound.reader_le
  have inside := sound.writer_le
  have length := sound.readableBytes
  exact if_pos ⟨by omega, by omega⟩

theorem front_eq (sound : buffer.Sound pool others) {count : Nat}
    (within : count ≤ buffer.readableBytes) :
    front buffer pool count = .ok (buffer.peek pool count) := by
  have length := ReceiveBuffer.length_readable sound.inOrder
  unfold front
  rw [readable_eq sound, ReceiveBuffer.peek_eq]
  exact if_neg (by omega)

theorem skip_eq {count : Nat} (within : count ≤ buffer.readableBytes) :
    buffer.skip count = .ok (buffer.advance count) :=
  if_pos within

theorem take_eq (sound : buffer.Sound pool others) {count : Nat}
    (within : count ≤ buffer.readableBytes) :
    take buffer pool count = .ok (buffer.advance count, buffer.peek pool count) := by
  unfold take
  rw [front_eq sound within]
  show (buffer.skip count >>= _) = _
  rw [skip_eq within]
  rfl

theorem length_peek (sound : buffer.Sound pool others) {count : Nat}
    (within : count ≤ buffer.readableBytes) : (buffer.peek pool count).length = count := by
  have length := ReceiveBuffer.length_readable sound.inOrder
  rw [ReceiveBuffer.peek_eq, List.length_take_of_le (by omega)]

/-- Bytes that can be read are there, and reading them leaves a sound buffer. -/
theorem take_of_readBytes (sound : buffer.Sound pool others) {count : Nat} {bytes : Bytes}
    (read : buffer.readBytes pool count = .ok (past, bytes)) :
    count ≤ buffer.readableBytes ∧ take buffer pool count = .ok (past, bytes) ∧
      bytes.length = count ∧ past.Sound pool others := by
  obtain ⟨within, rfl, rfl⟩ := ReceiveBuffer.readBytes_inversion read
  exact ⟨within, take_eq sound within, length_peek sound within, sound.advance within⟩

theorem lt_of_readBytes {count : Nat} {failure : Failure}
    (read : buffer.readBytes pool count = .error failure) : ¬ count ≤ buffer.readableBytes := by
  intro within
  unfold ReceiveBuffer.readBytes at read
  rw [if_pos within] at read
  cases read

theorem passScalar_eq (sound : buffer.Sound pool others) (type : ColumnType) :
    passScalar buffer pool type = .ok (buffer.passScalar pool type) := by
  unfold passScalar ReceiveBuffer.passScalar ReceiveBuffer.readScalarLength
    ReceiveBuffer.canReadScalarLength
  cases read : buffer.readBytes pool type.descriptorSize with
  | error failure =>
    rw [if_neg (by simpa using lt_of_readBytes read)]
    rfl
  | ok found =>
    obtain ⟨past, descriptor⟩ := found
    obtain ⟨enough, taken, width, -⟩ := take_of_readBytes sound read
    have parsed : ScalarLength.parse type descriptor = .ok (.ofDescriptor type descriptor) :=
      if_neg (Nat.not_lt.2 (Nat.le_of_eq width.symm))
    rw [if_pos (decide_eq_true enough), taken]
    show (ScalarLength.parse type descriptor >>= _) = _
    rw [parsed]
    dsimp only
    cases ScalarLength.ofDescriptor type descriptor with
    | null => rfl
    | of size =>
      show (if _ then _ else _) = _
      dsimp only
      split
      · rfl
      · rename_i whole
        rw [skip_eq (Nat.le_of_not_lt whole)]
        rfl

/-- The length of a chunk that can be read is there. -/
theorem take_of_readChunkLength (sound : buffer.Sound pool others) {length : ChunkLength}
    (read : buffer.readChunkLength pool = .ok (past, length)) :
    buffer.canReadChunkLength = true ∧ past.Sound pool others ∧
      ∃ header, take buffer pool ChunkLength.width = .ok (past, header) ∧
        chunkLength header = .ok length := by
  obtain ⟨header, found, rfl⟩ := ReceiveBuffer.readChunkLength_inversion read
  obtain ⟨enough, taken, width, moved⟩ := take_of_readBytes sound found
  exact ⟨decide_eq_true enough, moved, header, taken,
    if_neg (Nat.not_lt.2 (Nat.le_of_eq width.symm))⟩

theorem passChunks_eq (sound : buffer.Sound pool others) :
    passChunks buffer pool = .ok (buffer.passChunks pool) := by
  fun_induction ReceiveBuffer.passChunks buffer pool with
  | case1 buffer failure read =>
    have short : buffer.canReadChunkLength = false := by
      unfold ReceiveBuffer.readChunkLength at read
      split at read
      · cases read
      · rename_i found
        exact decide_eq_false (lt_of_readBytes found)
    rw [passChunks, short]
    rfl
  | case2 buffer past length read last =>
    obtain ⟨enough, -, header, taken, parsed⟩ := take_of_readChunkLength sound read
    rw [passChunks, if_pos enough]
    split
    · rename_i failed
      cases taken.symm.trans failed
    · rename_i found
      cases taken.symm.trans found
      rw [parsed]
      exact if_pos last
  | case3 buffer past length read going short =>
    obtain ⟨enough, -, header, taken, parsed⟩ := take_of_readChunkLength sound read
    rw [passChunks, if_pos enough]
    split
    · rename_i failed
      cases taken.symm.trans failed
    · rename_i found
      cases taken.symm.trans found
      rw [parsed]
      dsimp only
      rw [if_neg going, if_pos short]
  | case4 buffer past length read going whole inductionHypothesis =>
    obtain ⟨enough, moved, header, taken, parsed⟩ := take_of_readChunkLength sound read
    have whole := Nat.le_of_not_lt whole
    rw [passChunks, if_pos enough]
    split
    · rename_i failed
      cases taken.symm.trans failed
    · rename_i found
      cases taken.symm.trans found
      rw [parsed]
      dsimp only
      rw [if_neg going, if_neg (Nat.not_lt.2 whole)]
      split
      · rename_i failed
        cases (skip_eq whole).symm.trans failed
      · rename_i found
        cases (skip_eq whole).symm.trans found
        exact inductionHypothesis (moved.advance whole)

theorem passPlp_eq (sound : buffer.Sound pool others) :
    passPlp buffer pool = .ok (buffer.passPlp pool) := by
  unfold passPlp ReceiveBuffer.passPlp ReceiveBuffer.readTotal ReceiveBuffer.canReadTotal
  cases read : buffer.readBytes pool PlpTotal.width with
  | error failure =>
    rw [if_neg (by simpa using lt_of_readBytes read)]
    rfl
  | ok found =>
    obtain ⟨past, header⟩ := found
    obtain ⟨enough, taken, width, moved⟩ := take_of_readBytes sound read
    have parsed : total header = .ok (.ofBytes header) :=
      if_neg (Nat.not_lt.2 (Nat.le_of_eq width.symm))
    rw [if_pos (decide_eq_true enough), taken]
    show (total header >>= _) = _
    rw [parsed]
    show (if _ then _ else _) = _
    dsimp only
    split
    · rfl
    · exact passChunks_eq moved

theorem passValue_eq (sound : buffer.Sound pool others) (type : ColumnType) :
    passValue buffer pool type = .ok (buffer.passValue pool type) := by
  unfold passValue ReceiveBuffer.passValue
  split
  · exact passPlp_eq sound
  · exact passScalar_eq sound type

/-- A buffer that has passed a whole value is sound. -/
theorem sound_of_passValue (sound : buffer.Sound pool others) {type : ColumnType}
    (passed : buffer.passValue pool type = (past, true)) : past.Sound pool others := by
  have agrees := ReceiveBuffer.passValue_agrees sound.inOrder type
  have moved := ReceiveBuffer.onlyRead_passValue buffer pool type
  rw [passed] at agrees moved
  have ordered : past.reader ≤ buffer.writer := by
    cases found : type.afterValue (buffer.readable pool) with
    | none =>
      rw [found] at agrees
      cases agrees
    | some rest =>
      rw [found] at agrees
      rw [← moved.2]
      exact agrees.2.2.reader_le
  obtain ⟨block, reader, writer⟩ := past
  obtain ⟨rfl, rfl⟩ := moved
  exact sound.setReader ordered

/-! ### Columns -/

/-- The layout of columns whose first one has the given index. -/
def layoutFrom (bitmap : Option Bytes) : Nat → List ColumnType → RowLayout
  | _, [] => []
  | index, type :: types =>
    (if bitmap.any (isMarkedNull · index) then none else some type) ::
      layoutFrom bitmap (index + 1) types

theorem layoutFrom_none (index : Nat) (columns : List ColumnType) :
    layoutFrom none index columns = RowLayout.full columns := by
  induction columns generalizing index with
  | nil => rfl
  | cons type types inductionHypothesis => exact congrArg (some type :: ·) (inductionHypothesis _)

theorem layoutFrom_some (bitmap : Bytes) (index : Nat) (columns : List ColumnType) :
    layoutFrom (some bitmap) index columns = columns.mapIdx fun position type =>
      if isMarkedNull bitmap (index + position) then none else some type := by
  induction columns generalizing index with
  | nil => rfl
  | cons type types inductionHypothesis =>
    rw [layoutFrom, inductionHypothesis, List.mapIdx_cons]
    refine congrArg (_ :: ·) (congrArg (List.mapIdx · types) ?_)
    funext position type
    rw [Nat.add_right_comm, Nat.add_assoc]

theorem layoutFrom_zero (bitmap : Bytes) (columns : List ColumnType) :
    layoutFrom (some bitmap) 0 columns = RowLayout.ofBitmap bitmap columns := by
  rw [layoutFrom_some]
  simp only [Nat.zero_add]
  rfl

/-- A bitmap has a bit for each column from the given index on. -/
def Covers (bitmap : Option Bytes) (index count : Nat) : Prop :=
  ∀ bytes, bitmap = some bytes → index + count ≤ 8 * bytes.length

theorem covers_bitmapSize {bitmap : Bytes} {count : Nat} (size : bitmap.length = bitmapSize count) :
    Covers (some bitmap) 0 count := by
  rintro _ ⟨⟩
  rw [size]
  unfold bitmapSize
  omega

theorem Covers.leftOut {bitmap : Option Bytes} {index count : Nat}
    (covers : Covers bitmap index (count + 1)) :
    leftOut bitmap index = .ok (bitmap.any (isMarkedNull · index)) := by
  cases bitmap with
  | none => rfl
  | some bytes =>
    have room := covers bytes rfl
    exact if_pos (by omega)

theorem Covers.tail {bitmap : Option Bytes} {index count : Nat}
    (covers : Covers bitmap index (count + 1)) : Covers bitmap (index + 1) count := by
  intro bytes present
  have room := covers bytes present
  omega

theorem passColumns_eq {bitmap : Option Bytes} {index : Nat} {columns : List ColumnType}
    (sound : buffer.Sound pool others) (covers : Covers bitmap index columns.length) :
    passColumns bitmap buffer pool index columns =
      .ok (buffer.passLayout pool (layoutFrom bitmap index columns)) := by
  induction columns generalizing buffer index with
  | nil => rfl
  | cons type types inductionHypothesis =>
    rw [passColumns, layoutFrom, covers.leftOut]
    show (if _ then _ else _) = _
    by_cases marked : bitmap.any (isMarkedNull · index) = true
    · rw [if_pos marked, if_pos marked]
      exact inductionHypothesis sound covers.tail
    · rw [if_neg marked, if_neg marked, passValue_eq sound, ReceiveBuffer.passLayout]
      cases passed : buffer.passValue pool type with
      | mk past whole =>
        cases whole with
        | false => rfl
        | true => exact inductionHypothesis (sound_of_passValue sound passed) covers.tail

/-- Asking whether the body of a token is readable fails no check. -/
theorem canDecode_eq (sound : buffer.Sound pool others) (token : RowToken)
    (columns : List ColumnType) : canDecode token buffer pool columns =
      .ok (buffer, (token.split columns (buffer.readable pool)).isSome) := by
  have length := ReceiveBuffer.length_readable sound.inOrder
  cases token with
  | row =>
    have nothing : Covers none 0 columns.length := nofun
    have moved := ReceiveBuffer.onlyRead_passLayout buffer pool (RowLayout.full columns)
    unfold canDecode
    dsimp only
    rw [passColumns_eq sound nothing, layoutFrom_none]
    show (ReceiveBuffer.reset _ buffer.reader >>= _) = _
    rw [sound.reset_of_onlyRead moved, sound.passLayout_snd]
    rfl
  | bitmapRow =>
    unfold canDecode RowToken.split
    dsimp only
    by_cases short : buffer.readableBytes < bitmapSize columns.length
    · rw [if_pos short, if_pos (by omega)]
      rfl
    · have enough := Nat.le_of_not_lt short
      have body := sound.advance enough
      have moved : buffer.OnlyRead (buffer.advance (bitmapSize columns.length)) := ⟨rfl, rfl⟩
      rw [if_neg short, if_neg (by omega), take_eq sound enough]
      show (passColumns (some (buffer.peek pool _)) _ pool 0 columns >>= _) = _
      rw [passColumns_eq body (covers_bitmapSize (length_peek sound enough)), layoutFrom_zero]
      show (ReceiveBuffer.reset _ buffer.reader >>= _) = _
      rw [sound.reset_of_onlyRead (moved.trans (ReceiveBuffer.onlyRead_passLayout _ _ _)),
        body.passLayout_snd, ReceiveBuffer.readable_advance sound.inOrder enough,
        ReceiveBuffer.peek_eq]
      rfl

/-! ### Decoding whole rows -/

/-- The checked step succeeds where a step does, and does the same. -/
def Repeats {Item : Type} (checked : Except Failure (Pool × ReceiveBuffer × Item))
    (reading : Reading Item) : Prop :=
  ∀ item, reading.result = .ok item → checked = .ok (reading.pool, reading.buffer, item)

theorem need_eq {count : Nat} (enough : count ≤ buffer.readableBytes) :
    need buffer count = .ok () :=
  if_neg (Nat.not_lt.2 enough)

theorem decodeScalar_repeats (sound : buffer.Sound pool others) (type : ColumnType) :
    Repeats (decodeScalar buffer pool type) (buffer.decodeScalar pool type) := by
  unfold ReceiveBuffer.decodeScalar ReceiveBuffer.readScalarLength
  cases read : buffer.readBytes pool type.descriptorSize with
  | error failure => exact fun _ impossible => by cases impossible
  | ok found =>
    obtain ⟨past, descriptor⟩ := found
    obtain ⟨enough, taken, width, -⟩ := take_of_readBytes sound read
    have parsed : ScalarLength.parse type descriptor = .ok (.ofDescriptor type descriptor) :=
      if_neg (Nat.not_lt.2 (Nat.le_of_eq width.symm))
    unfold decodeScalar
    rw [need_eq enough]
    show Repeats (take buffer pool _ >>= _) _
    rw [taken]
    show Repeats (ScalarLength.parse type descriptor >>= _) _
    rw [parsed]
    dsimp only
    cases ScalarLength.ofDescriptor type descriptor with
    | null =>
      rintro _ ⟨⟩
      rfl
    | of size =>
      dsimp only
      split
      · exact fun _ impossible => by cases impossible
      · rename_i whole
        show Repeats (need past size.toNat >>= _) _
        rw [need_eq (Nat.le_of_not_lt whole)]
        show Repeats (past.reset buffer.reader >>= _) _
        split
        · exact fun _ impossible => by cases impossible
        · rename_i start back
          rw [back]
          show Repeats (start.readSlice pool _ >>= _) _
          split
          · rename_i slice success
            rw [success]
            rintro _ ⟨⟩
            rfl
          · exact fun _ impossible => by cases impossible

/-- What is checked before a chunk is read as a slice holds if so many bytes are readable. -/
theorem chunkHead_eq {Item : Type} (sound : buffer.Sound pool others) {length : ChunkLength}
    (enough : ¬ buffer.readableBytes < ChunkLength.width)
    (header : length = .ofBytes (buffer.peek pool ChunkLength.width))
    (whole : ¬ buffer.readableBytes < ChunkLength.width + length.toNat)
    (rest : ChunkLength → Except Failure Item) :
    (do
      need buffer ChunkLength.width
      let header ← front buffer pool ChunkLength.width
      let length ← chunkLength header
      need buffer (ChunkLength.width + length.toNat)
      rest length) = rest length := by
  have enough := Nat.le_of_not_lt enough
  have parsed : chunkLength (buffer.peek pool ChunkLength.width) = .ok length :=
    header ▸ if_neg (Nat.not_lt.2 (Nat.le_of_eq (length_peek sound enough).symm))
  rw [need_eq enough]
  show (front buffer pool _ >>= _) = _
  rw [front_eq sound enough]
  show (chunkLength _ >>= _) = _
  rw [parsed]
  show (need buffer _ >>= _) = _
  rw [need_eq (Nat.le_of_not_lt whole)]
  rfl

theorem decodeChunks_repeats (sound : buffer.Sound pool others) :
    Repeats (decodeChunks buffer pool) (buffer.decodeChunks pool) := by
  fun_induction ReceiveBuffer.decodeChunks buffer pool generalizing others with
  | case1 => exact fun _ impossible => by cases impossible
  | case2 => exact fun _ impossible => by cases impossible
  | case3 => exact fun _ impossible => by cases impossible
  | case4 buffer pool enough length whole pool' after slice success =>
    rename_i last
    rintro _ ⟨⟩
    rw [decodeChunks, chunkHead_eq sound enough rfl whole]
    split
    · rename_i failed
      cases success.symm.trans failed
    · rename_i found
      cases success.symm.trans found
      exact if_pos last
  | case5 buffer pool enough length whole pool' after slice success going _ _ slices decoded =>
    rename_i inductionHypothesis
    obtain ⟨taken, -⟩ := sound.readSlice_inversion success
    have rest := inductionHypothesis taken slices
    rw [decoded] at rest
    rintro _ ⟨⟩
    rw [decodeChunks, chunkHead_eq sound enough rfl whole]
    split
    · rename_i failed
      cases success.symm.trans failed
    · rename_i found
      cases success.symm.trans found
      rw [if_neg going, rest rfl]
      rfl
  | case6 => exact fun _ impossible => by cases impossible

theorem decodePlp_repeats (sound : buffer.Sound pool others) :
    Repeats (decodePlp buffer pool) (buffer.decodePlp pool) := by
  unfold ReceiveBuffer.decodePlp
  split
  · exact fun _ impossible => by cases impossible
  · rename_i enough
    have enough := Nat.le_of_not_lt enough
    have parsed : total (buffer.peek pool PlpTotal.width) = .ok (.ofBytes _) :=
      if_neg (Nat.not_lt.2 (Nat.le_of_eq (length_peek sound enough).symm))
    unfold decodePlp
    rw [need_eq enough]
    show Repeats (front buffer pool _ >>= _) _
    rw [front_eq sound enough]
    show Repeats (total _ >>= _) _
    rw [parsed]
    show Repeats (if _ then _ else _) _
    split
    · rintro _ ⟨⟩
      rw [skip_eq enough]
      rfl
    · split
      · exact fun _ impossible => by cases impossible
      · rename_i pool' after first success
        obtain ⟨taken, -⟩ := sound.readSlice_inversion success
        have chunks := decodeChunks_repeats taken
        rw [success]
        show Repeats (decodeChunks after pool' >>= _) _
        split
        · rename_i slices decoded
          rw [decoded] at chunks
          rw [chunks slices rfl]
          rintro _ ⟨⟩
          rfl
        · exact fun _ impossible => by cases impossible

theorem decodeValue_repeats (sound : buffer.Sound pool others) (type : ColumnType) :
    Repeats (decodeValue buffer pool type) (buffer.decodeValue pool type) := by
  unfold decodeValue ReceiveBuffer.decodeValue
  split
  · exact decodePlp_repeats sound
  · exact decodeScalar_repeats sound type

/-- A column that is NULL so far takes what was read for it. -/
theorem fill_eq {slot : Slot} (fresh : slot.IsFresh) (done rest : List Slot) :
    fill ⟨done ++ .null :: rest⟩ done.length slot = .ok ⟨done ++ slot :: rest⟩ := by
  have here : (done ++ Slot.null :: rest)[done.length]? = some .null := by
    rw [List.getElem?_append_right (Nat.le_refl _), Nat.sub_self]
    rfl
  rcases fresh with rfl | ⟨value, rfl⟩
  · rfl
  · unfold fill Row.put
    dsimp only [Slot.value?]
    rw [here]
    dsimp only [Row.setSlot]
    rw [List.set_append_right _ _ (Nat.le_refl _), Nat.sub_self]
    rfl

/-- Reading the values of columns that are all there fills a row with them. -/
theorem decodeColumns_eq {bitmap : Option Bytes} {columns : List ColumnType} (done : List Slot)
    {slots : List Slot} {pieces : List (Option Bytes)} {rest : Bytes}
    (sound : buffer.Sound pool others) (held : buffer.block.isSome)
    (covers : Covers bitmap done.length columns.length)
    (found : (layoutFrom bitmap done.length columns).split (buffer.readable pool) =
      some (pieces, rest))
    (decoded : buffer.decodeSlots pool (layoutFrom bitmap done.length columns) =
      ⟨pool', after, .ok slots⟩) :
    decodeColumns bitmap buffer pool ⟨done ++ List.replicate columns.length .null⟩ done.length
      columns = .ok (pool', after, ⟨done ++ slots⟩) := by
  induction columns generalizing buffer pool others done slots pieces with
  | nil =>
    cases decoded
    rfl
  | cons type types inductionHypothesis =>
    have next (slot : Slot) : (done ++ [slot]).length = done.length + 1 :=
      List.length_append.trans rfl
    rw [layoutFrom] at found decoded
    rw [decodeColumns, covers.leftOut, List.length_cons, List.replicate_succ]
    show (if _ then _ else _) = _
    by_cases marked : bitmap.any (isMarkedNull · done.length) = true
    · rw [if_pos marked] at found decoded ⊢
      obtain ⟨⟨others', last⟩, tail, same⟩ := Option.map_eq_some_iff.1 found
      cases same
      unfold ReceiveBuffer.decodeSlots at decoded
      split at decoded
      · rename_i slots' more
        cases decoded
        rw [List.append_cons done _ (List.replicate _ _), List.append_cons done _ slots',
          ← next .null]
        rw [← next .null] at tail more
        exact inductionHypothesis _ sound held (next .null ▸ covers.tail) tail more
      · cases decoded
    · rw [if_neg marked] at found decoded ⊢
      unfold RowLayout.split at found
      split at found
      · cases found
      · rename_i piece middle first
        obtain ⟨⟨others', last⟩, tail, same⟩ := Option.map_eq_some_iff.1 found
        cases same
        obtain ⟨slot, decodes⟩ := sound.decodeValue held first
        have takes := decodes.takes
        have result := decodes.result
        have checked := decodeValue_repeats sound type slot result
        unfold ReceiveBuffer.decodeSlots at decoded
        generalize buffer.decodeValue pool type = reading at result takes checked decoded
        obtain ⟨pool₁, past, _⟩ := reading
        cases result
        dsimp only at takes checked decoded
        rw [checked]
        show (fill _ done.length slot >>= _) = _
        rw [fill_eq decodes.fresh]
        show decodeColumns bitmap past pool₁ _ (done.length + 1) types = _
        split at decoded
        · rename_i slots' more
          cases decoded
          rw [List.append_cons done _ (List.replicate _ _), List.append_cons done _ slots',
            ← next slot]
          rw [← takes.readable, ← next slot] at tail
          rw [← next slot] at more
          exact inductionHypothesis _ takes.sound (takes.block ▸ held) (next slot ▸ covers.tail)
            tail more
        · cases decoded

/-- Decoding a whole row fails no check. -/
theorem decode_repeats {token : RowToken} {columns : List ColumnType}
    {pieces : List (Option Bytes)} {rest : Bytes} (sound : buffer.Sound pool others)
    (held : buffer.block.isSome)
    (found : token.split columns (buffer.readable pool) = some (pieces, rest)) :
    Repeats (decode token buffer pool columns) (token.decode buffer pool columns) := by
  -- The slots of a layout that is read in one go are those of the row that is filled.
  have filled {bitmap : Option Bytes} {body : ReceiveBuffer} (body_sound : body.Sound pool others)
      (body_held : body.block.isSome) (covers : Covers bitmap 0 columns.length)
      (whole : (layoutFrom bitmap 0 columns).split (body.readable pool) = some (pieces, rest)) :
      Repeats (decodeColumns bitmap body pool (blankRow columns) 0 columns)
        (body.decodeLayout pool (layoutFrom bitmap 0 columns)) := by
    unfold ReceiveBuffer.decodeLayout
    cases decoded : body.decodeSlots pool (layoutFrom bitmap 0 columns) with
    | mk pool' after result =>
      cases result with
      | error failure => exact fun _ impossible => by cases impossible
      | ok slots =>
        rintro _ ⟨⟩
        exact decodeColumns_eq [] body_sound body_held covers whole decoded
  cases token with
  | row =>
    have layout := layoutFrom_none 0 columns
    have whole : (layoutFrom none 0 columns).split (buffer.readable pool) = some (pieces, rest) := by
      rw [layout]
      exact found
    have covers : Covers none 0 columns.length := nofun
    have row := filled sound held covers whole
    rwa [layout] at row
  | bitmapRow =>
    have length := ReceiveBuffer.length_readable sound.inOrder
    unfold RowToken.split at found
    dsimp only at found
    split at found
    · cases found
    · rename_i short
      have enough : bitmapSize columns.length ≤ buffer.readableBytes := by omega
      have layout := layoutFrom_zero (buffer.peek pool (bitmapSize columns.length)) columns
      rw [← ReceiveBuffer.readable_advance sound.inOrder enough, ← ReceiveBuffer.peek_eq,
        ← layout] at found
      have row := filled (sound.advance enough) held
        (covers_bitmapSize (length_peek sound enough)) found
      unfold decode RowToken.decode ReceiveBuffer.decodeBitmap ReceiveBuffer.readBytes
      dsimp only
      rw [need_eq enough, if_pos enough]
      show Repeats (take buffer pool _ >>= _) _
      rw [take_eq sound enough]
      rwa [layout] at row

/-- Resuming fails no check. -/
theorem resume_repeats (sound : buffer.Sound pool others) (columns : List ColumnType) :
    Repeats (resume buffer pool columns) (buffer.resume pool columns) := by
  have length := ReceiveBuffer.length_readable sound.inOrder
  unfold resume ReceiveBuffer.resume
  rw [ReceiveBuffer.peek_eq]
  cases readable : buffer.readable pool with
  | nil =>
    rw [readable] at length
    rw [if_pos (by rw [← length]; exact Nat.zero_lt_one)]
    rintro _ ⟨⟩
    rfl
  | cons byte bytes =>
    have held := ReceiveBuffer.held_of_readable (show buffer.readable pool ≠ [] by
      rw [readable]; exact List.cons_ne_nil _ _)
    have within : 1 ≤ buffer.readableBytes := by
      rw [readable, List.length_cons] at length
      omega
    have body := sound.advance within
    have moved : buffer.OnlyRead (buffer.advance 1) := ⟨rfl, rfl⟩
    rw [if_neg (Nat.not_lt.2 within), front_eq sound within, ReceiveBuffer.peek_eq, readable,
      List.take_succ_cons]
    show Repeats (match RowToken.ofByte? byte with | none => _ | some token => _) _
    dsimp only
    cases RowToken.ofByte? byte with
    | none =>
      rintro _ ⟨⟩
      rfl
    | some token =>
      show Repeats (buffer.skip 1 >>= _) _
      rw [skip_eq within]
      show Repeats (canDecode token (buffer.advance 1) pool columns >>= _) _
      dsimp only
      rw [canDecode_eq body, body.canDecode]
      cases found : token.split columns ((buffer.advance 1).readable pool) with
      | none =>
        show Repeats ((buffer.advance 1).reset buffer.reader >>= _) _
        rw [sound.reset_of_onlyRead moved]
        rintro _ ⟨⟩
        rfl
      | some cut =>
        have row := decode_repeats body held found
        show Repeats (decode token (buffer.advance 1) pool columns >>= _) _
        dsimp only [Option.isSome_some]
        generalize token.decode (buffer.advance 1) pool columns = reading at row
        obtain ⟨pool', after, result⟩ := reading
        cases result with
        | error failure => exact fun _ impossible => by cases impossible
        | ok decoded =>
          rw [row decoded rfl]
          rintro _ ⟨⟩
          rfl

end Agreement

end Checked

end TabularStream
