/-
This file reads a value chunk by chunk. The reader owns the value as a composite whose components
may be cut anywhere, also within a length, and reads across their boundaries. A PLP value gives
the payload of each of its chunks, a scalar value gives its payload as one chunk.

Components are released as soon as all of their bytes have been read, and whatever is left is
released when the value ends or is found to be malformed.
-/

import TabularStream.Length
import TabularStream.Value

namespace TabularStream

/-! ### Reading across components -/

/-- The memory of some slices, from `skip` bytes past their start on, at most `count` bytes of
it. -/
def Pool.gather (pool : Pool) : (slices : List Slice) → (skip count : Nat) → Memory
  | _, _, 0 => Memory.empty
  | [], _, _ => Memory.empty
  | first :: rest, skip, count =>
    if first.size ≤ skip then pool.gather rest (skip - first.size) count
    else
      ((pool.contents first).drop skip).take count ++
        pool.gather rest 0 (count - (first.size - skip))

/-- A slice lies inside of its block. -/
def Pool.Holds (pool : Pool) (slice : Slice) : Prop :=
  (pool.bytesOf slice).length = slice.size

/-- Reading across slices is reading their bytes as one string. -/
theorem Pool.gather_eq (pool : Pool) (slices : List Slice)
    (held : ∀ slice ∈ slices, pool.Holds slice) (skip count : Nat) :
    (pool.gather slices skip count).toList =
      ((slices.flatMap pool.bytesOf).drop skip).take count := by
  induction slices generalizing skip count with
  | nil => cases count <;> simp [gather]
  | cons first rest inductionHypothesis =>
    have size : (pool.bytesOf first).length = first.size := held first List.mem_cons_self
    have others : ∀ slice ∈ rest, pool.Holds slice :=
      fun slice member => held slice (List.mem_cons_of_mem _ member)
    cases count with
    | zero => simp [gather]
    | succ count =>
      rw [gather]
      split
      · rename_i passed
        have none : (pool.bytesOf first).drop skip = [] := List.drop_of_length_le (by omega)
        rw [inductionHypothesis others, List.flatMap_cons, List.drop_append, none,
          List.nil_append, size]
      · rw [Memory.toList_append, inductionHypothesis others, List.flatMap_cons,
          List.drop_zero, List.drop_append_of_le_length (by omega), List.take_append,
          Memory.toList_take, Memory.toList_drop, List.length_drop, size]
        rfl
      · exact fun absurd => Nat.noConfusion absurd

/-- Release the slices that end at or before a position. Gives the pool, the number of slices
released, those that are left and the position within them. -/
def Pool.releasePassed (pool : Pool) :
    (slices : List Slice) → (position : Nat) → Pool × Nat × List Slice × Nat
  | [], position => (pool, 0, [], position)
  | first :: rest, position =>
    if first.size ≤ position then
      let (pool, count, left, position) :=
        (pool.release first).releasePassed rest (position - first.size)
      (pool, count + 1, left, position)
    else (pool, 0, first :: rest, position)

/-! ### The reader -/

namespace ChunkReader

/-- How far a reader has come. -/
inductive Phase where
  /-- Nothing has been read. -/
  | header
  /-- The total of a PLP value has been read. -/
  | chunks
  /-- The payload of a scalar value has been read. -/
  | scalarRead
  /-- The value has ended, or has been given up. -/
  | finished
  deriving DecidableEq, Repr

/-- What reading on gives. -/
inductive Event where
  | chunk (payload : Bytes)
  | done
  | malformed (error : ClientError)
  deriving DecidableEq, Repr

end ChunkReader

/-- A reader of one value, which it owns. -/
structure ChunkReader where
  /-- The components that have not been released. -/
  data : Composite
  type : ColumnType
  phase : ChunkReader.Phase
  /-- The reading position, from the start of the first component. -/
  offset : Nat
  /-- The chunk that was read last, until it is released. -/
  payload : Bytes
  /-- What was found to be wrong with the value. -/
  error : Option ClientError
  deriving DecidableEq, Repr

/-- What a call to `next` leaves. -/
structure Pulled where
  pool : Pool
  reader : ChunkReader
  event : ChunkReader.Event
  deriving DecidableEq, Repr

namespace ChunkReader

/-- A reader at the start of a value. -/
def ofValue (value : Value) (type : ColumnType) : ChunkReader :=
  ⟨value.toComposite, type, .header, 0, [], none⟩

/-- Does the reader own a part of the value? -/
def owns (reader : ChunkReader) : Bool := reader.data.owns

/-- The number of bytes that have not been read. -/
def available (reader : ChunkReader) : Nat := Word.sub reader.data.size reader.offset

/-- The bytes from `skip` bytes past the reading position on, at most `count` of them. -/
def bytesAt (reader : ChunkReader) (pool : Pool) (skip count : Nat) : Bytes :=
  (pool.gather reader.data.live (Word.add reader.offset skip) count).toList

/-- The reader with its position moved past `count` bytes. -/
def advance (reader : ChunkReader) (count : Nat) : ChunkReader :=
  { reader with offset := Word.add reader.offset count }

/-! ### Releasing -/

/-- Release the components that have been read entirely, and the payload with them. -/
def releaseConsumed (reader : ChunkReader) (pool : Pool) : Pool × ChunkReader :=
  let (pool, count, left, offset) := pool.releasePassed reader.data.live reader.offset
  (pool, { reader with data := ⟨reader.data.released + count, left⟩, offset, payload := [] })

/-- Release the whole value. No more chunks are given. -/
def release (reader : ChunkReader) (pool : Pool) : Pool × ChunkReader :=
  let (pool, data) := reader.data.release pool
  (pool, { reader with data, phase := .finished, offset := 0, payload := [] })

/-! ### Reading on -/

/-- The event that ends a value. -/
def Event.ofError : Option ClientError → Event
  | none => .done
  | some error => .malformed error

/-- End the value, well or with an error. -/
def finish (reader : ChunkReader) (pool : Pool) (error : Option ClientError) : Pulled :=
  let (pool, reader) := reader.release pool
  ⟨pool, { reader with error }, .ofError error⟩

/-- Give a chunk and move past it. -/
def give (reader : ChunkReader) (pool : Pool) (phase : Phase) (count : Nat) : Pulled :=
  let payload := reader.bytesAt pool 0 count
  ⟨pool, { reader.advance count with phase, payload }, .chunk payload⟩

/-- Read a whole scalar value. -/
def readScalar (reader : ChunkReader) (pool : Pool) : Pulled :=
  let width := reader.type.descriptorSize
  if reader.available < width then reader.finish pool (some .incompleteMessage)
  else
    match ScalarLength.ofDescriptor reader.type (reader.bytesAt pool 0 width) with
    | .null => reader.finish pool none
    | .of size =>
      let body := reader.advance width
      if body.available < size.toNat then reader.finish pool (some .incompleteMessage)
      else if size.toNat < body.available then reader.finish pool (some .extraBytes)
      else body.give pool .scalarRead size.toNat

/-- Read the next chunk of a PLP value. -/
def readChunk (reader : ChunkReader) (pool : Pool) : Pulled :=
  if reader.available < ChunkLength.width then reader.finish pool (some .plpMissingTerminator)
  else
    let length := ChunkLength.ofBytes (reader.bytesAt pool 0 ChunkLength.width)
    let body := reader.advance ChunkLength.width
    if length.isTerminator then
      reader.finish pool (if body.available = 0 then none else some .extraBytes)
    else if body.available < length.toNat then reader.finish pool (some .plpChunkTruncated)
    else body.give pool .chunks length.toNat

/-- Read the total of a PLP value and its first chunk. -/
def readPlp (reader : ChunkReader) (pool : Pool) : Pulled :=
  if reader.available < PlpTotal.width then reader.finish pool (some .incompleteMessage)
  else if (PlpTotal.ofBytes (reader.bytesAt pool 0 PlpTotal.width)).isNull then
    reader.finish pool none
  else { reader.advance PlpTotal.width with phase := .chunks }.readChunk pool

/-- Read on: the next chunk, or how the value ended. -/
def next (reader : ChunkReader) (pool : Pool) : Pulled :=
  let (pool, reader) := reader.releaseConsumed pool
  match reader.phase with
  | .header => if reader.type.isPlp then reader.readPlp pool else reader.readScalar pool
  | .chunks => reader.readChunk pool
  | .scalarRead => reader.finish pool none
  | .finished => ⟨pool, reader, .ofError reader.error⟩

/-! ### Looking ahead -/

/-- Is there a whole chunk with a payload, `skip` bytes past the reading position? -/
def chunkAt (reader : ChunkReader) (pool : Pool) (skip : Nat) : Bool :=
  if reader.available < skip + ChunkLength.width then false
  else
    let length := ChunkLength.ofBytes (reader.bytesAt pool skip ChunkLength.width)
    !length.isTerminator && length.toNat ≤ reader.available - skip - ChunkLength.width

/-- Will reading on give a chunk with a payload? Nothing is read. -/
def chunkAhead (reader : ChunkReader) (pool : Pool) : Bool :=
  match reader.phase with
  | .header =>
    if reader.type.isPlp then
      if reader.available < PlpTotal.width then false
      else if (PlpTotal.ofBytes (reader.bytesAt pool 0 PlpTotal.width)).isNull then false
      else reader.chunkAt pool PlpTotal.width
    else
      let width := reader.type.descriptorSize
      if reader.available < width then false
      else
        match ScalarLength.ofDescriptor reader.type (reader.bytesAt pool 0 width) with
        | .null => false
        | .of size => size != 0 && reader.available - width == size.toNat
  | .chunks => reader.chunkAt pool 0
  | .scalarRead => false
  | .finished => false

/-! ### What is left -/

/-- How many phases may still follow. -/
def Phase.rank : Phase → Nat
  | .header => 2
  | .chunks => 1
  | .scalarRead => 1
  | .finished => 0

/-- A bound on the number of chunks that a reader can still give. -/
def remaining (reader : ChunkReader) : Nat := reader.available + reader.phase.rank

theorem totalSize_of_releasePassed (pool : Pool) (slices : List Slice) (position : Nat) :
    let after := pool.releasePassed slices position
    Word.sub (totalSize after.2.2.1) after.2.2.2 = Word.sub (totalSize slices) position := by
  induction slices generalizing pool position with
  | nil => rfl
  | cons first rest inductionHypothesis =>
    unfold Pool.releasePassed
    split
    · rename_i passed
      exact (inductionHypothesis _ _).trans (Word.sub_sub_left passed)
    · rfl

@[simp] theorem available_releaseConsumed (reader : ChunkReader) (pool : Pool) :
    (reader.releaseConsumed pool).2.available = reader.available :=
  totalSize_of_releasePassed pool reader.data.live reader.offset

@[simp] theorem remaining_releaseConsumed (reader : ChunkReader) (pool : Pool) :
    (reader.releaseConsumed pool).2.remaining = reader.remaining :=
  congrArg (· + reader.phase.rank) (available_releaseConsumed reader pool)

/-- What has been moved past is no longer available. -/
theorem available_advance_add {reader : ChunkReader} {count : Nat}
    (within : count ≤ reader.available) :
    (reader.advance count).available + count = reader.available :=
  Word.sub_add_right within

/-! ### Using a reader -/

/-- The ways to use a reader. -/
inductive Op where
  | next
  | payload
  | error
  | releaseConsumed
  | release
  deriving DecidableEq, Repr

/-- The answers of a reader. -/
inductive Reply where
  | nothing
  | event (event : Event)
  | payload (bytes : Bytes)
  | error (error : Option ClientError)
  deriving DecidableEq, Repr

/-- Use a reader. -/
def perform (reader : ChunkReader) (pool : Pool) : Op → Pool × ChunkReader × Reply
  | .next =>
    let pulled := reader.next pool
    (pulled.pool, pulled.reader, .event pulled.event)
  | .payload => (pool, reader, .payload reader.payload)
  | .error => (pool, reader, .error reader.error)
  | .releaseConsumed =>
    let (pool, reader) := reader.releaseConsumed pool
    (pool, reader, .nothing)
  | .release =>
    let (pool, reader) := reader.release pool
    (pool, reader, .nothing)

/-- Release what the reader owns, at the end of its life. -/
def drop (reader : ChunkReader) (pool : Pool) : Pool := pool.releaseAll reader.data.live

end ChunkReader

end TabularStream
