/-
This file decodes rows from a receive buffer. Decoding reads the values one after the other and
takes a slice of the buffer's block for each: one for a scalar value with its descriptor, and for
a PLP value one for its total and one for each chunk with its length. Nothing is copied.

Decoding a row that is not whole fails where the bytes run out; the cursor stays there, and every
slice taken so far is released.
-/

import TabularStream.Row
import TabularStream.Row.Passing

namespace TabularStream

/-- The reading that fails because the bytes ran out. -/
def Reading.cutShort {Item : Type} (pool : Pool) (buffer : ReceiveBuffer) : Reading Item :=
  ⟨pool, buffer, .error (.client .decodePreconditionViolated)⟩

namespace ReceiveBuffer

/-! ### One value -/

/-- Read a scalar value as one slice, its descriptor included. The cursor goes back to the
descriptor once the value is known to be whole. -/
def decodeScalar (buffer : ReceiveBuffer) (pool : Pool) (type : ColumnType) : Reading Slot :=
  match buffer.readScalarLength pool type with
  | .error _ => .cutShort pool buffer
  | .ok (past, .null) => ⟨pool, past, .ok .null⟩
  | .ok (past, .of size) =>
    if past.readableBytes < size.toNat then .cutShort pool past
    else
      match past.reset buffer.reader with
      | .error failure => ⟨pool, past, .error failure⟩
      | .ok start =>
        match start.readSlice pool (type.descriptorSize + size.toNat) with
        | .ok (pool, after, slice) => ⟨pool, after, .ok (.owned (.scalar (some slice)))⟩
        | .error failure => ⟨pool, start, .error failure⟩

/-- Read chunks up to the empty one, each as a slice with its length. -/
def decodeChunks (buffer : ReceiveBuffer) (pool : Pool) : Reading (List Slice) :=
  if buffer.readableBytes < ChunkLength.width then .cutShort pool buffer
  else
    let length := ChunkLength.ofBytes (buffer.peek pool ChunkLength.width)
    if buffer.readableBytes < ChunkLength.width + length.toNat then .cutShort pool buffer
    else
      match _success : buffer.readSlice pool (ChunkLength.width + length.toNat) with
      | .error failure => ⟨pool, buffer, .error failure⟩
      | .ok (pool, after, slice) =>
        if length.isTerminator then ⟨pool, after, .ok [slice]⟩
        else
          match after.decodeChunks pool with
          | ⟨pool, buffer, .ok slices⟩ => ⟨pool, buffer, .ok (slice :: slices)⟩
          | ⟨pool, buffer, .error failure⟩ => ⟨pool.release slice, buffer, .error failure⟩
termination_by buffer.readableBytes
decreasing_by
  have shorter := readableBytes_of_readSlice _success
  simp only [ChunkLength.width] at *
  omega

/-- Read a PLP value as slices of its total, its chunks and its terminator. -/
def decodePlp (buffer : ReceiveBuffer) (pool : Pool) : Reading Slot :=
  if buffer.readableBytes < PlpTotal.width then .cutShort pool buffer
  else if (PlpTotal.ofBytes (buffer.peek pool PlpTotal.width)).isNull then
    ⟨pool, buffer.advance PlpTotal.width, .ok .null⟩
  else
    match buffer.readSlice pool PlpTotal.width with
    | .error failure => ⟨pool, buffer, .error failure⟩
    | .ok (pool, after, total) =>
      match after.decodeChunks pool with
      | ⟨pool, buffer, .ok chunks⟩ =>
        ⟨pool, buffer, .ok (.owned (.chunked (Composite.ofList (total :: chunks))))⟩
      | ⟨pool, buffer, .error failure⟩ => ⟨pool.release total, buffer, .error failure⟩

/-- Read the value of a column. -/
def decodeValue (buffer : ReceiveBuffer) (pool : Pool) (type : ColumnType) : Reading Slot :=
  if type.isPlp then buffer.decodePlp pool else buffer.decodeScalar pool type

/-! ### Whole rows -/

/-- Read the values of the columns that are present. -/
def decodeSlots (buffer : ReceiveBuffer) (pool : Pool) : RowLayout → Reading (List Slot)
  | [] => ⟨pool, buffer, .ok []⟩
  | none :: columns =>
    match buffer.decodeSlots pool columns with
    | ⟨pool, buffer, .ok slots⟩ => ⟨pool, buffer, .ok (.null :: slots)⟩
    | ⟨pool, buffer, .error failure⟩ => ⟨pool, buffer, .error failure⟩
  | some type :: columns =>
    match buffer.decodeValue pool type with
    | ⟨pool, buffer, .error failure⟩ => ⟨pool, buffer, .error failure⟩
    | ⟨pool, buffer, .ok slot⟩ =>
      match buffer.decodeSlots pool columns with
      | ⟨pool, buffer, .ok slots⟩ => ⟨pool, buffer, .ok (slot :: slots)⟩
      | ⟨pool, buffer, .error failure⟩ =>
        ⟨pool.releaseAll slot.slices, buffer, .error failure⟩

/-- Read a row with the given layout. -/
def decodeLayout (buffer : ReceiveBuffer) (pool : Pool) (layout : RowLayout) : Reading Row :=
  match buffer.decodeSlots pool layout with
  | ⟨pool, buffer, result⟩ => ⟨pool, buffer, result.map Row.mk⟩

/-- Read the body of a row. -/
def decode (buffer : ReceiveBuffer) (pool : Pool) (columns : List ColumnType) : Reading Row :=
  buffer.decodeLayout pool (RowLayout.full columns)

/-- Read the body of a row with a bitmap. -/
def decodeBitmap (buffer : ReceiveBuffer) (pool : Pool) (columns : List ColumnType) :
    Reading Row :=
  match buffer.readBytes pool (bitmapSize columns.length) with
  | .error _ => .cutShort pool buffer
  | .ok (past, bitmap) => past.decodeLayout pool (RowLayout.ofBitmap bitmap columns)

end ReceiveBuffer

end TabularStream
