/-
This file holds the data of one column: the wire bytes of a value that is not NULL, lengths
included. A scalar value is a single slice. A PLP value is a composite of its total, its chunks
and its terminator, in the order of the wire. A value owns its slices.
-/

import TabularStream.Composite

namespace TabularStream

/-- The wire bytes of a value. -/
inductive Value where
  | scalar (handle : Handle)
  | chunked (composite : Composite)
  deriving DecidableEq, Repr

namespace Value

/-- The slices that a value owns, in order. -/
def slices : Value → List Slice
  | scalar handle => handle.toList
  | chunked composite => composite.live

/-- The number of wire bytes. -/
def size : Value → Nat
  | scalar handle => handle.size
  | chunked composite => composite.size

/-- The wire bytes. -/
def bytes (value : Value) (pool : Pool) : Bytes :=
  match value with
  | scalar handle => handle.bytes pool
  | chunked composite => composite.bytes pool

/-- Copy the wire bytes. A single slice is copied in one piece. -/
def copy (value : Value) (pool : Pool) : Except Failure Bytes :=
  match value with
  | scalar handle =>
    if Word.largestSize < handle.size then .error (.tooLarge .sequence)
    else .ok (handle.bytes pool)
  | chunked composite => composite.copy pool

/-- What is left of a value that has been moved elsewhere. -/
def emptied : Value → Value
  | scalar _ => scalar none
  | chunked _ => chunked Composite.empty

/-- Release what a value owns. -/
def release (value : Value) (pool : Pool) : Pool := pool.releaseAll value.slices

/-- The value as a composite. An empty scalar has no component. -/
def toComposite : Value → Composite
  | scalar handle => Composite.ofList handle.toList
  | chunked composite => composite

/-- Copy parts into a pool, one slice for each. -/
def copyParts (pool : Pool) : List Bytes → Except Failure (Pool × List Slice)
  | [] => .ok (pool, [])
  | part :: rest => do
    let (pool, slice) ← pool.copyOf part
    let (pool, slices) ← copyParts pool rest
    return (pool, slice :: slices)

/-- A PLP value whose components hold the given parts. -/
def ofParts (pool : Pool) (parts : List Bytes) : Except Failure (Pool × Value) := do
  let (pool, slices) ← copyParts pool parts
  return (pool, chunked (Composite.ofList slices))

/-- A scalar value that holds the given bytes. -/
def ofBytes (pool : Pool) (bytes : Bytes) : Except Failure (Pool × Value) := do
  let (pool, slice) ← pool.copyOf bytes
  return (pool, scalar (some slice))

end Value

end TabularStream
