/-
This file asks whether a whole row is readable. The cursor of the buffer is moved past the values
of the row, one after the other, for as long as they are complete, and is set back to where it
was. No slice is taken and no byte is moved, so asking changes nothing.

Setting the cursor back fails if it was past the writing cursor, which cannot happen unless sizes
have wrapped around. Then the cursor stays where it got to.
-/

import TabularStream.ReceiveBuffer.Lengths
import TabularStream.Row.Layout

namespace TabularStream

/-- What reading from a buffer leaves: the pool, the buffer, and what was read. -/
structure Reading (Item : Type) where
  pool : Pool
  buffer : ReceiveBuffer
  result : Except Failure Item
  deriving Repr

namespace ReceiveBuffer

/-! ### One value -/

/-- Move past a scalar value. Tells whether it is complete. -/
def passScalar (buffer : ReceiveBuffer) (pool : Pool) (type : ColumnType) :
    ReceiveBuffer × Bool :=
  match buffer.readScalarLength pool type with
  | .error _ => (buffer, false)
  | .ok (past, .null) => (past, true)
  | .ok (past, .of size) =>
    if past.readableBytes < size.toNat then (past, false) else (past.advance size.toNat, true)

/-- Move past chunks, up to the empty one. Tells whether they are complete. -/
def passChunks (buffer : ReceiveBuffer) (pool : Pool) : ReceiveBuffer × Bool :=
  match _success : buffer.readChunkLength pool with
  | .error _ => (buffer, false)
  | .ok (past, length) =>
    if length.isTerminator then (past, true)
    else if past.readableBytes < length.toNat then (past, false)
    else (past.advance length.toNat).passChunks pool
termination_by buffer.readableBytes
decreasing_by
  have header := readableBytes_of_readChunkLength _success
  have payload := readableBytes_advance_add (Nat.le_of_not_lt ‹_›)
  simp only [ChunkLength.width] at header
  omega

/-- Move past a PLP value. Tells whether it is complete. -/
def passPlp (buffer : ReceiveBuffer) (pool : Pool) : ReceiveBuffer × Bool :=
  match buffer.readTotal pool with
  | .error _ => (buffer, false)
  | .ok (past, total) => if total.isNull then (past, true) else past.passChunks pool

/-- Move past the value of a column. Tells whether it is complete. -/
def passValue (buffer : ReceiveBuffer) (pool : Pool) (type : ColumnType) :
    ReceiveBuffer × Bool :=
  if type.isPlp then buffer.passPlp pool else buffer.passScalar pool type

/-! ### Whole rows -/

/-- Move past the values of the columns that are present. Tells whether all are complete. -/
def passLayout (buffer : ReceiveBuffer) (pool : Pool) : RowLayout → ReceiveBuffer × Bool
  | [] => (buffer, true)
  | none :: columns => buffer.passLayout pool columns
  | some type :: columns =>
    match buffer.passValue pool type with
    | (past, true) => past.passLayout pool columns
    | (past, false) => (past, false)

/-- Set the cursor back after moving past a row. -/
def restore (buffer : ReceiveBuffer) (pool : Pool) (passed : ReceiveBuffer × Bool) :
    Reading Bool :=
  match passed.1.reset buffer.reader with
  | .ok restored => ⟨pool, restored, .ok passed.2⟩
  | .error failure => ⟨pool, passed.1, .error failure⟩

/-- Is the body of a row readable? -/
def canDecode (buffer : ReceiveBuffer) (pool : Pool) (columns : List ColumnType) : Reading Bool :=
  buffer.restore pool (buffer.passLayout pool (RowLayout.full columns))

/-- Is the body of a row with a bitmap readable? -/
def canDecodeBitmap (buffer : ReceiveBuffer) (pool : Pool) (columns : List ColumnType) :
    Reading Bool :=
  match buffer.readBytes pool (bitmapSize columns.length) with
  | .error _ => ⟨pool, buffer, .ok false⟩
  | .ok (past, bitmap) =>
    buffer.restore pool (past.passLayout pool (RowLayout.ofBitmap bitmap columns))

end ReceiveBuffer

end TabularStream
