/-
This file proves that a row that has been decoded shows the bytes that it was read from. The bytes
that decoding consumes are, column by column, the copied data of the columns that the row owns and
the NULL markers of those that are NULL, after the bitmap if there is one. `WireImage` is that
concatenation, by the columns of a layout, and says of each value that its size is the number of
its bytes and how its slices make it up. So no byte of a row is lost, copied twice or given to
another column.
-/

import TabularStream.Proofs.Acceptance

namespace TabularStream

/-! ### NULL markers -/

/-- The bytes that stand for NULL. Values of a fixed length are never NULL. -/
def LengthStrategy.nullBytes? : LengthStrategy → Option Bytes
  | fixed => none
  | byte => some [0x00]
  | ushort => some [0xFF, 0xFF]
  | long => some [0xFF, 0xFF, 0xFF, 0xFF]
  | part => some [0xFF, 0xFF, 0xFF, 0xFF, 0xFF, 0xFF, 0xFF, 0xFF]

/-- A descriptor that stands for NULL is the marker of its strategy. -/
theorem ScalarLength.nullBytes?_eq {type : ColumnType} {descriptor : Bytes}
    (scalar : type.isPlp = false) (width : descriptor.length = type.descriptorSize)
    (null : ofDescriptor type descriptor = .null) :
    type.strategy.nullBytes? = some descriptor := by
  unfold ofDescriptor at null
  dsimp only at null
  rw [← width, List.take_length] at null
  split at null
  · cases null
  · rename_i lengths
    split at null
    · rename_i marked
      have back := littleEndian_ofLittleEndian descriptor
      rw [width] at back
      unfold ColumnType.descriptorSize ColumnType.isPlp at *
      generalize type.strategy = strategy at *
      cases strategy with
      | fixed => exact absurd rfl lengths
      | byte | ushort | long =>
        rw [← back, ← Option.some.inj marked]
        rfl
      | part => cases scalar
    · cases null

/-- NULL is written as the marker of its strategy. -/
theorem WrittenValue.nullBytes?_eq {type : ColumnType} {front : Bytes}
    (written : WrittenValue type none front) : type.strategy.nullBytes? = some front := by
  cases written with
  | null scalar width length => exact ScalarLength.nullBytes?_eq scalar width length
  | @plpNull total plp absent =>
    have null : total = PlpTotal.null := eq_of_beq absent
    have strategy : type.strategy = .part := eq_of_beq plp
    rw [null, strategy]
    rfl

/-! ### The image of a row -/

/-- The bytes of some columns, one after the other: nothing for a column that is left out, the
marker for one that is NULL, and a copy of the data that the row owns. The size of the data is the
number of its bytes. -/
inductive WireImage (pool : Pool) : RowLayout → List Slot → Bytes → Prop where
  | nil : WireImage pool [] [] []
  | leftOut {columns : RowLayout} {slots : List Slot} {bytes : Bytes}
      (others : WireImage pool columns slots bytes) :
      WireImage pool (none :: columns) (.null :: slots) bytes
  | null {type : ColumnType} {columns : RowLayout} {slots : List Slot} {marker bytes : Bytes}
      (absent : type.strategy.nullBytes? = some marker)
      (others : WireImage pool columns slots bytes) :
      WireImage pool (some type :: columns) (.null :: slots) (marker ++ bytes)
  | owned {type : ColumnType} {columns : RowLayout} {value : Value} {slots : List Slot}
      {data bytes : Bytes} (copied : value.copy pool = .ok data)
      (size : value.size = data.length) (parts : value.Parts type pool)
      (others : WireImage pool columns slots bytes) :
      WireImage pool (some type :: columns) (.owned value :: slots) (data ++ bytes)

/-- The bytes of the body of a token: those of all columns, or a bitmap and the bytes of the
columns whose bit is clear. -/
inductive RowToken.Image (columns : List ColumnType) (pool : Pool) (row : Row) :
    RowToken → Bytes → Prop where
  | row {bytes : Bytes} (image : WireImage pool (RowLayout.full columns) row.slots bytes) :
      Image columns pool row .row bytes
  | bitmapRow {bitmap bytes : Bytes} (width : bitmap.length = bitmapSize columns.length)
      (image : WireImage pool (RowLayout.ofBitmap bitmap columns) row.slots bytes) :
      Image columns pool row .bitmapRow (bitmap ++ bytes)

/-- The size of a value is the number of its bytes, unless they are too many to count. -/
theorem Value.size_eq {value : Value} {pool : Pool}
    (held : ∀ slice ∈ value.slices, pool.Holds slice)
    (small : (value.bytes pool).length < Word.modulus) :
    value.size = (value.bytes pool).length := by
  rcases value with (_ | slice) | composite
  · rfl
  · exact (held slice List.mem_cons_self).symm
  · exact totalSize_eq held small

theorem Value.Parts.congr {type : ColumnType} {pool pool' : Pool} {value : Value}
    (parts : value.Parts type pool) (same : ∀ slice, pool'.bytesOf slice = pool.bytesOf slice) :
    value.Parts type pool' := by
  cases parts with
  | scalar plain slice => exact .scalar plain slice
  | chunked plp present written parts =>
    refine .chunked plp present written (Eq.trans ?_ parts)
    exact List.map_congr_left fun slice _ => same slice

namespace ReceiveBuffer

variable {buffer : ReceiveBuffer} {pool : Pool} {others : List Slice}

/-! ### Decoding consumes the image -/

/-- The bytes of a value that was decoded are the data of its slot, or the marker of NULL. -/
theorem Decodes.image {type : ColumnType} {reading : Reading Slot}
    {contents : Option (List Bytes)} {front rest : Bytes} {slot : Slot} {pool' : Pool}
    {columns : RowLayout} {slots : List Slot} {bytes : Bytes}
    (decodes : buffer.Decodes pool others type reading (contents.map fun _ => front) rest slot)
    (written : WrittenValue type contents front) (small : front.length ≤ Word.largestSize)
    (same : ∀ slice, pool'.bytesOf slice = reading.pool.bytesOf slice)
    (held : ∀ slice ∈ slot.slices, pool'.Holds slice)
    (image : WireImage pool' columns slots bytes) :
    WireImage pool' (some type :: columns) (slot :: slots) (front ++ bytes) := by
  have wire := decodes.wire
  rcases decodes.fresh with rfl | ⟨value, rfl⟩
  · cases contents with
    | none => exact .null written.nullBytes?_eq image
    | some payloads => cases wire
  · have shown : value.bytes pool' = value.bytes reading.pool :=
      Value.bytes_congr fun slice _ => same slice
    cases contents with
    | none => cases wire
    | some payloads =>
      have data : value.bytes pool' = front := shown.trans (Option.some.inj wire)
      have copied := Value.copy_eq held (data ▸ small)
      have size := Value.size_eq held (Nat.lt_of_le_of_lt (data ▸ small) (by decide))
      rw [data] at copied size
      exact .owned copied size ((decodes.parts value rfl).congr same) image

/-- What decoding consumes is the image of the slots that it gives. -/
theorem Sound.image_of_decodeSlots {layout : RowLayout} {pieces : List (Option Bytes)}
    {rest : Bytes} (sound : buffer.Sound pool others) (held : buffer.block.isSome)
    (found : layout.split (buffer.readable pool) = some (pieces, rest)) {pool' : Pool}
    {after : ReceiveBuffer} {slots : List Slot}
    (decoded : buffer.decodeSlots pool layout = ⟨pool', after, .ok slots⟩) :
    ∃ front, buffer.readable pool = front ++ rest ∧ WireImage pool' layout slots front := by
  induction layout generalizing buffer pool others pieces slots with
  | nil =>
    cases found
    cases decoded
    exact ⟨[], rfl, .nil⟩
  | cons column columns inductionHypothesis =>
    cases column with
    | none =>
      obtain ⟨⟨pieces, last⟩, tail, same⟩ := Option.map_eq_some_iff.1 found
      cases same
      unfold ReceiveBuffer.decodeSlots at decoded
      split at decoded
      · rename_i more
        cases decoded
        obtain ⟨front, cut, image⟩ := inductionHypothesis sound held tail more
        exact ⟨front, cut, .leftOut image⟩
      · cases decoded
    | some type =>
      unfold RowLayout.split at found
      split at found
      · cases found
      · rename_i piece middle cut
        obtain ⟨⟨pieces, last⟩, tail, same⟩ := Option.map_eq_some_iff.1 found
        cases same
        obtain ⟨contents, front, written, consumed, rfl⟩ := ColumnType.split_eq_some_iff.1 cut
        obtain ⟨slot, decodes⟩ := sound.decodeValue held cut
        have small : front.length ≤ Word.largestSize := by
          have limit := sound.length_readable_le
          rw [consumed, List.length_append] at limit
          omega
        unfold ReceiveBuffer.decodeSlots at decoded
        generalize buffer.decodeValue pool type = reading at decodes decoded
        obtain ⟨pool'', past, result⟩ := reading
        cases decodes.result
        have takes := decodes.takes
        rw [← takes.readable] at tail
        dsimp only at decoded
        split at decoded
        · rename_i more
          cases decoded
          obtain ⟨_, _, _, again, left, -, -⟩ :=
            takes.sound.decodeSlots (takes.block ▸ held) tail
          cases more.symm.trans again
          obtain ⟨bytes, behind, image⟩ :=
            inductionHypothesis takes.sound (takes.block ▸ held) tail more
          refine ⟨front ++ bytes, ?_, decodes.image written small left.same ?_ image⟩
          · rw [consumed, ← takes.readable, behind, List.append_assoc]
          · intro slice member
            refine left.sound.accounts.holds (List.mem_append_right _ ?_)
            exact List.mem_append_right _ (List.mem_append_left _ member)
        · cases decoded

theorem decodeSlots_of_decodeLayout {layout : RowLayout} {pool' : Pool} {after : ReceiveBuffer}
    {row : Row} (decoded : buffer.decodeLayout pool layout = ⟨pool', after, .ok row⟩) :
    buffer.decodeSlots pool layout = ⟨pool', after, .ok row.slots⟩ := by
  unfold decodeLayout at decoded
  generalize buffer.decodeSlots pool layout = reading at decoded
  obtain ⟨_, _, failure | slots⟩ := reading
  · cases decoded
  · cases decoded
    rfl

/-- What decoding consumes is the image of the row that it gives. -/
theorem Sound.image_of_decode {token : RowToken} {columns : List ColumnType}
    {pieces : List (Option Bytes)} {rest : Bytes} (sound : buffer.Sound pool others)
    (held : buffer.block.isSome)
    (found : token.split columns (buffer.readable pool) = some (pieces, rest)) {pool' : Pool}
    {after : ReceiveBuffer} {row : Row}
    (decoded : token.decode buffer pool columns = ⟨pool', after, .ok row⟩) :
    ∃ front, buffer.readable pool = front ++ rest ∧ token.Image columns pool' row front := by
  cases token with
  | row =>
    obtain ⟨front, cut, image⟩ :=
      sound.image_of_decodeSlots held found (decodeSlots_of_decodeLayout decoded)
    exact ⟨front, cut, .row image⟩
  | bitmapRow =>
    have length := length_readable sound.inOrder
    unfold RowToken.split at found
    dsimp only at found
    split at found
    · cases found
    · rename_i enough
      have inside := Nat.le_of_not_lt enough
      have within : bitmapSize columns.length ≤ buffer.readableBytes := length ▸ inside
      rw [← readable_advance sound.inOrder within] at found
      unfold RowToken.decode decodeBitmap readBytes at decoded
      rw [if_pos within, peek_eq] at decoded
      obtain ⟨front, cut, image⟩ := (sound.advance within).image_of_decodeSlots held found
        (decodeSlots_of_decodeLayout decoded)
      rw [readable_advance sound.inOrder within] at cut
      refine ⟨_, ?_, .bitmapRow (List.length_take_of_le inside) image⟩
      rw [List.append_assoc, ← cut, List.take_append_drop]

end ReceiveBuffer

/-- Where the body of a row is readable as a whole, decoding gives a row, and what it consumes is
what the row shows: after the bitmap, if there is one, the data of each column that the row owns
and the NULL marker of each that is NULL, in order. Every value is as large as its bytes, and a
PLP value is made of its total, its chunks with their lengths, and its terminator. -/
theorem decoded_row_shows_wire {session : Session} (reachable : session.Reachable)
    (held : session.buffer.block.isSome) {token : RowToken} {columns : List ColumnType}
    {pool : Pool} {buffer : ReceiveBuffer}
    (asked : token.canDecode session.buffer session.pool columns = ⟨pool, buffer, .ok true⟩) :
    ∃ pool' after row front, token.decode buffer pool columns = ⟨pool', after, .ok row⟩ ∧
      session.unread = front ++ after.readable pool' ∧
      after.reader = session.buffer.reader + front.length ∧
      token.Image columns pool' row front := by
  have sound : session.buffer.Sound session.pool session.handedOut := reachable.sound
  have answer := sound.canDecode token columns
  rw [asked] at answer
  obtain ⟨rfl, rfl, whole⟩ := Reading.mk.inj answer
  obtain ⟨⟨pieces, rest⟩, found⟩ := Option.isSome_iff_exists.1 (Except.ok.inj whole).symm
  obtain ⟨pool', after, row, decoded, takes, -, -⟩ := sound.decode held found
  have moved := ReceiveBuffer.onlyRead_decode token session.buffer session.pool columns
  rw [decoded] at moved
  obtain ⟨front, cut, image⟩ := sound.image_of_decode held found decoded
  have place := sound.eq_of_takes takes moved cut
  refine ⟨pool', after, row, front, decoded, ?_, congrArg ReceiveBuffer.reader place, image⟩
  rw [takes.readable]
  exact cut

/-- A number, a large binary object and a short text. -/
def shownColumns : List ColumnType :=
  [⟨.intN, .byte, 4, .usAscii, 0, 0⟩, ⟨.varbinaryMax, .part, 0, .usAscii, 0, 0⟩,
    ⟨.varchar, .ushort, 9, .usAscii, 0, 0⟩]

/-- A row with a bitmap that leaves out the text. The number is NULL, and the object is in two
chunks. -/
def shownBody : Bytes :=
  [0x04] ++ [0x00] ++ [3, 0, 0, 0, 0, 0, 0, 0] ++ [2, 0, 0, 0, 7, 8] ++ [1, 0, 0, 0, 9] ++
    [0, 0, 0, 0]

/-- A session that has received this row and one byte more. -/
def shownSession : Session :=
  (Session.fresh {} shownColumns).after [.buffer (.append (shownBody ++ [0xD1]))]

theorem decoded_row_shows_wire_shownSession :
    ∃ pool after row, RowToken.bitmapRow.decode shownSession.buffer shownSession.pool
        shownColumns = ⟨pool, after, .ok row⟩ ∧
      RowToken.bitmapRow.Image shownColumns pool row shownBody := by
  have new : Session.new {} shownColumns = .ok (Session.fresh {} shownColumns) := rfl
  have reachable : shownSession.Reachable := (Session.Reachable.new new).after (by decide)
  have whole : (RowToken.bitmapRow.split shownColumns
      (shownSession.buffer.readable shownSession.pool)).isSome := by
    decide +kernel
  have asked := ReceiveBuffer.Sound.canDecode .bitmapRow shownColumns reachable.sound
  rw [whole] at asked
  obtain ⟨pool, after, row, front, decoded, unread, -, image⟩ :=
    decoded_row_shows_wire reachable (by decide) asked
  have left : (fun reading : Reading Row => reading.buffer.readable reading.pool)
      (RowToken.bitmapRow.decode shownSession.buffer shownSession.pool shownColumns) =
        [0xD1] := by
    decide +kernel
  rw [decoded] at left
  change after.readable pool = [0xD1] at left
  have received : shownSession.unread = shownBody ++ [0xD1] := by decide +kernel
  rw [left, received] at unread
  rw [List.append_cancel_right unread]
  exact ⟨pool, after, row, decoded, image⟩

end TabularStream
