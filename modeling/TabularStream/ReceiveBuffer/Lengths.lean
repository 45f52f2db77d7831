/-
This file reads the lengths of values from a receive buffer. Each reader moves the cursor past
the length and needs all of its bytes to be readable; the test that goes with it says whether they
are, and moves nothing.
-/

import TabularStream.Length
import TabularStream.ReceiveBuffer

namespace TabularStream.ReceiveBuffer

/-- Can the length of a scalar value be read? -/
def canReadScalarLength (buffer : ReceiveBuffer) (type : ColumnType) : Bool :=
  type.descriptorSize ≤ buffer.readableBytes

/-- Read the length of a scalar value. -/
def readScalarLength (buffer : ReceiveBuffer) (pool : Pool) (type : ColumnType) :
    Except Failure (ReceiveBuffer × ScalarLength) :=
  match buffer.readBytes pool type.descriptorSize with
  | .ok (past, bytes) => .ok (past, ScalarLength.ofDescriptor type bytes)
  | .error failure => .error failure

/-- Can the total of a PLP value be read? -/
def canReadTotal (buffer : ReceiveBuffer) : Bool := PlpTotal.width ≤ buffer.readableBytes

/-- Read the total of a PLP value. -/
def readTotal (buffer : ReceiveBuffer) (pool : Pool) : Except Failure (ReceiveBuffer × PlpTotal) :=
  match buffer.readBytes pool PlpTotal.width with
  | .ok (past, bytes) => .ok (past, PlpTotal.ofBytes bytes)
  | .error failure => .error failure

/-- Can the length of a chunk be read? -/
def canReadChunkLength (buffer : ReceiveBuffer) : Bool := ChunkLength.width ≤ buffer.readableBytes

/-- Read the length of a chunk. -/
def readChunkLength (buffer : ReceiveBuffer) (pool : Pool) :
    Except Failure (ReceiveBuffer × ChunkLength) :=
  match buffer.readBytes pool ChunkLength.width with
  | .ok (past, bytes) => .ok (past, ChunkLength.ofBytes bytes)
  | .error failure => .error failure

theorem readChunkLength_inversion {buffer past : ReceiveBuffer} {pool : Pool}
    {length : ChunkLength} (success : buffer.readChunkLength pool = .ok (past, length)) :
    ∃ bytes, buffer.readBytes pool ChunkLength.width = .ok (past, bytes) ∧
      length = ChunkLength.ofBytes bytes := by
  unfold readChunkLength at success
  split at success
  · rename_i bytes found
    cases success
    exact ⟨bytes, found, rfl⟩
  · cases success

/-- The length of a chunk that was read is no longer readable. -/
theorem readableBytes_of_readChunkLength {buffer past : ReceiveBuffer} {pool : Pool}
    {length : ChunkLength} (success : buffer.readChunkLength pool = .ok (past, length)) :
    past.readableBytes + ChunkLength.width = buffer.readableBytes := by
  obtain ⟨bytes, found, -⟩ := readChunkLength_inversion success
  exact readableBytes_of_readBytes found

end TabularStream.ReceiveBuffer
