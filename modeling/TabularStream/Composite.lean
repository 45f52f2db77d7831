/-
This file holds composites: ordered sequences of slices that are read as one byte range. A
composite owns its components. They are released one by one from the front or all at once, and a
composite that has released some of them counts those, because components are asked for by their
distance from the first one that is still owned.

The size of a composite is a 64-bit word. Slices may claim more bytes than there are, so the sizes
of components can add up to more than a word holds, and copying such a composite fails.
-/

import TabularStream.Pool

namespace TabularStream

/-- A sequence of owned slices. -/
structure Composite where
  /-- How many components have been released from the front. -/
  released : Nat := 0
  /-- The components that are still owned, in order. -/
  live : List Slice := []
  deriving DecidableEq, Repr

namespace Composite

/-- The composite without components. -/
def empty : Composite := {}

/-- The composite of the given slices. -/
def ofList (slices : List Slice) : Composite := { live := slices }

/-! ### Looking at a composite -/

/-- Is a component still owned? -/
def owns (composite : Composite) : Bool := !composite.live.isEmpty

/-- The number of components that are still owned. -/
def count (composite : Composite) : Nat := composite.live.length

/-- The number of bytes of the components that are still owned, as a 64-bit word. -/
def size (composite : Composite) : Nat := totalSize composite.live

/-- The bytes of the components that are still owned, in order. -/
def bytes (composite : Composite) (pool : Pool) : Bytes := composite.live.flatMap pool.bytesOf

/-- Copy slices to the end of a string that has `copied` bytes already. -/
def copySlices (pool : Pool) : (copied : Nat) → List Slice → Except Failure Bytes
  | _, [] => .ok []
  | copied, slice :: rest =>
    if Word.largestSize < copied + slice.size then .error (.tooLarge .growth)
    else
      match copySlices pool (copied + slice.size) rest with
      | .ok bytes => .ok (pool.bytesOf slice ++ bytes)
      | .error failure => .error failure

/-- Copy the bytes of the components that are still owned. Room for them is set aside first. -/
def copy (composite : Composite) (pool : Pool) : Except Failure Bytes :=
  if Word.largestSize < composite.size then .error (.tooLarge .reserve)
  else copySlices pool 0 composite.live

/-- A component, counted from the first one that is still owned. The count is a 64-bit word, so
one that wraps around names a component that has been released and owns nothing. -/
def component (composite : Composite) (index : Nat) : Except Failure Handle :=
  let position := Word.add composite.released index
  if position < composite.released then .ok none
  else
    match composite.live[position - composite.released]? with
    | some slice => .ok (some slice)
    | none => .error .outOfRange

/-! ### Changing a composite -/

/-- The composite with one more component at its end. -/
def add (composite : Composite) (slice : Slice) : Composite :=
  { composite with live := composite.live ++ [slice] }

/-- Release the first component, if there is one. -/
def releaseFront (composite : Composite) (pool : Pool) : Pool × Composite :=
  match composite.live with
  | [] => (pool, composite)
  | first :: rest => (pool.release first, ⟨composite.released + 1, rest⟩)

/-- Release every component. -/
def release (composite : Composite) (pool : Pool) : Pool × Composite :=
  (pool.releaseAll composite.live, empty)

end Composite

end TabularStream
