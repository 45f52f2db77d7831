/-
This file holds the buffer in which received bytes accumulate until they are read. The buffer owns
a whole block of the pool and two cursors into it:

  bytes before `reader`             have been read and may be discarded,
  bytes from `reader` to `writer`   are readable,
  bytes from `writer` on            are free for writing.

Reading never copies: `readSlice` hands out another slice of the block, which keeps the block
alive when the buffer moves on. Bytes that were handed out must not change under their owners, so
the buffer moves its readable bytes within the block only when it holds the only reference to it,
and to another block otherwise.

Cursors are 64-bit words. An operation that fails changes nothing.
-/

import TabularStream.Pool

namespace TabularStream

/-- A buffer of received bytes. -/
structure ReceiveBuffer where
  /-- The slice of the whole block, if the buffer holds one. -/
  block : Handle := none
  reader : Nat := 0
  writer : Nat := 0
  deriving DecidableEq, Repr

namespace ReceiveBuffer

/-- A buffer that holds no block. -/
def empty : ReceiveBuffer := {}

/-! ### Looking at a buffer -/

/-- The size of the block. -/
def capacity (buffer : ReceiveBuffer) : Nat := buffer.block.size

/-- The number of bytes that can be read. -/
def readableBytes (buffer : ReceiveBuffer) : Nat := Word.sub buffer.writer buffer.reader

/-- The memory that can be read. -/
def contents (buffer : ReceiveBuffer) (pool : Pool) : Memory :=
  ((buffer.block.contents pool).drop buffer.reader).take buffer.readableBytes

/-- The bytes that can be read. -/
def readable (buffer : ReceiveBuffer) (pool : Pool) : Bytes := (buffer.contents pool).toList

/-- The first bytes that can be read. -/
def peek (buffer : ReceiveBuffer) (pool : Pool) (count : Nat) : Bytes :=
  ((buffer.contents pool).take count).toList

@[simp] theorem peek_eq (buffer : ReceiveBuffer) (pool : Pool) (count : Nat) :
    buffer.peek pool count = (buffer.readable pool).take count :=
  Memory.toList_take _ _

/-! ### Writing -/

/-- Move the readable bytes to another block with room for `count` more. The old block is given
back after the bytes have been copied, and lives on if slices of it do. -/
def relocate (buffer : ReceiveBuffer) (pool : Pool) (count : Nat) :
    Except Failure (Pool × ReceiveBuffer) :=
  match pool.allocate (Word.add buffer.readableBytes count) with
  | .ok (pool, fresh) =>
    let filled := pool.write fresh 0 (buffer.contents pool)
    .ok (buffer.block.release filled, ⟨some fresh, 0, buffer.readableBytes⟩)
  | .error failure => .error failure

/-- Make room for `count` more bytes: in the block as it is, in the block after moving the
readable bytes to its front, or in another block. -/
def ensureWritable (buffer : ReceiveBuffer) (pool : Pool) (count : Nat) :
    Except Failure (Pool × ReceiveBuffer) :=
  match buffer.block with
  | none => buffer.relocate pool count
  | some block =>
    if count ≤ block.size - buffer.writer then .ok (pool, buffer)
    else if pool.useCount block = 1 ∧ count ≤ block.size - buffer.readableBytes then
      .ok (pool.write block 0 (buffer.contents pool), ⟨some block, 0, buffer.readableBytes⟩)
    else buffer.relocate pool count

/-- Make room for `count` more bytes and tell how many bytes can be written now. -/
def prepare (buffer : ReceiveBuffer) (pool : Pool) (count : Nat) :
    Except Failure (Pool × ReceiveBuffer × Nat) :=
  match buffer.ensureWritable pool count with
  | .ok (pool, buffer) => .ok (pool, buffer, buffer.capacity - buffer.writer)
  | .error failure => .error failure

/-- Copy bytes to the front of the writable region, without publishing them. -/
def fillRegion (buffer : ReceiveBuffer) (pool : Pool) (bytes : Bytes) : Pool :=
  match buffer.block with
  | some block => pool.write block buffer.writer (Memory.ofBytes bytes)
  | none => pool

/-- Make the next `count` bytes of the writable region readable. -/
def commit (buffer : ReceiveBuffer) (count : Nat) : Except Failure ReceiveBuffer :=
  let writer := Word.add buffer.writer count
  if writer ≤ buffer.capacity then .ok { buffer with writer } else .error .precondition

/-- Add bytes to the end of the readable ones. -/
def append (buffer : ReceiveBuffer) (pool : Pool) (bytes : Bytes) :
    Except Failure (Pool × ReceiveBuffer) :=
  match bytes with
  | [] => .ok (pool, buffer)
  | _ =>
    match buffer.prepare pool bytes.length with
    | .ok (pool, buffer, _) =>
      match buffer.commit bytes.length with
      | .ok committed => .ok (buffer.fillRegion pool bytes, committed)
      | .error failure => .error failure
    | .error failure => .error failure

/-! ### Reading -/

/-- The buffer with its reading cursor moved past `count` bytes. -/
def advance (buffer : ReceiveBuffer) (count : Nat) : ReceiveBuffer :=
  { buffer with reader := Word.add buffer.reader count }

/-- Set the reading cursor. -/
def reset (buffer : ReceiveBuffer) (index : Nat) : Except Failure ReceiveBuffer :=
  if index ≤ buffer.writer then .ok { buffer with reader := index } else .error .precondition

/-- Move past `count` bytes, which have to be readable. -/
def skip (buffer : ReceiveBuffer) (count : Nat) : Except Failure ReceiveBuffer :=
  if count ≤ buffer.readableBytes then .ok (buffer.advance count) else .error .precondition

/-- Read `count` bytes, which have to be readable. -/
def readBytes (buffer : ReceiveBuffer) (pool : Pool) (count : Nat) :
    Except Failure (ReceiveBuffer × Bytes) :=
  if count ≤ buffer.readableBytes then .ok (buffer.advance count, buffer.peek pool count)
  else .error .precondition

/-- Read an unsigned number of `width` bytes. -/
def readUnsigned (buffer : ReceiveBuffer) (pool : Pool) (width : Nat) :
    Except Failure (ReceiveBuffer × Nat) :=
  match buffer.readBytes pool width with
  | .ok (buffer, bytes) => .ok (buffer, ofLittleEndian bytes)
  | .error failure => .error failure

/-- Read a number of `width` bytes in two's complement. -/
def readSigned (buffer : ReceiveBuffer) (pool : Pool) (width : Nat) :
    Except Failure (ReceiveBuffer × Int) :=
  match buffer.readUnsigned pool width with
  | .ok (buffer, number) => .ok (buffer, (number : Int).bmod (byteRange width))
  | .error failure => .error failure

/-- The number is made of the bytes in front of the cursor, like an unsigned one. -/
theorem readSigned_eq (buffer : ReceiveBuffer) (pool : Pool) (width : Nat) :
    buffer.readSigned pool width =
      match buffer.readBytes pool width with
      | .ok (past, bytes) => .ok (past, (ofLittleEndian bytes : Int).bmod (byteRange width))
      | .error failure => .error failure := by
  unfold readSigned readUnsigned
  cases buffer.readBytes pool width <;> rfl

/-- Read `count` bytes as a slice of the block. The buffer has to hold one, even for no bytes. -/
def readSlice (buffer : ReceiveBuffer) (pool : Pool) (count : Nat) :
    Except Failure (Pool × ReceiveBuffer × Slice) :=
  if count ≤ buffer.readableBytes then
    match buffer.block.retain pool buffer.reader count with
    | .ok (pool, slice) => .ok (pool, buffer.advance count, slice)
    | .error failure => .error failure
  else .error .precondition

/-! ### Discarding -/

/-- Give up the bytes before the reading cursor, so that their space can be used again. With
nothing left to read, a block that others still use is left to them. -/
def discard (buffer : ReceiveBuffer) (pool : Pool) : Pool × ReceiveBuffer :=
  match buffer.block with
  | none => (pool, buffer)
  | some block =>
    if buffer.reader = buffer.writer then
      if pool.useCount block = 1 then (pool, ⟨some block, 0, 0⟩)
      else (pool.release block, empty)
    else if 0 < buffer.reader ∧ pool.useCount block = 1 then
      (pool.write block 0 (buffer.contents pool), ⟨some block, 0, buffer.readableBytes⟩)
    else (pool, buffer)

/-- Give the block back. Bytes that have not been read are lost. -/
def release (buffer : ReceiveBuffer) (pool : Pool) : Pool × ReceiveBuffer :=
  (buffer.block.release pool, empty)

/-! ### Progress -/

@[simp] theorem readableBytes_advance_add {buffer : ReceiveBuffer} {count : Nat}
    (within : count ≤ buffer.readableBytes) :
    (buffer.advance count).readableBytes + count = buffer.readableBytes :=
  Word.sub_add_right within

/-- What was read are readable bytes in front of the cursor, which has moved past them. -/
theorem readBytes_inversion {buffer after : ReceiveBuffer} {pool : Pool} {count : Nat}
    {bytes : Bytes} (success : buffer.readBytes pool count = .ok (after, bytes)) :
    count ≤ buffer.readableBytes ∧ after = buffer.advance count ∧
      bytes = buffer.peek pool count := by
  unfold readBytes at success
  split at success
  · rename_i within
    cases success
    exact ⟨within, rfl, rfl⟩
  · cases success

/-- Bytes that were read are no longer readable. -/
theorem readableBytes_of_readBytes {buffer after : ReceiveBuffer} {pool : Pool} {count : Nat}
    {bytes : Bytes} (success : buffer.readBytes pool count = .ok (after, bytes)) :
    after.readableBytes + count = buffer.readableBytes := by
  obtain ⟨within, rfl, -⟩ := readBytes_inversion success
  exact readableBytes_advance_add within

/-- A slice that was read is no longer readable. -/
theorem readableBytes_of_readSlice {buffer after : ReceiveBuffer} {pool pool' : Pool}
    {count : Nat} {slice : Slice}
    (success : buffer.readSlice pool count = .ok (pool', after, slice)) :
    after.readableBytes + count = buffer.readableBytes := by
  unfold readSlice at success
  split at success
  · rename_i within
    split at success
    · cases success
      exact readableBytes_advance_add within
    · cases success
  · cases success

end ReceiveBuffer

end TabularStream
