/-
This file holds the operations of a session on slices and composites. Moving leaves the source in
its place, empty; moving something onto itself has no effect.
-/

import TabularStream.Session.State

namespace TabularStream.Session

/-- The operations on slices. Offsets and sizes are 64-bit words. -/
inductive SliceOp where
  | allocate (size : UInt64)
  | copyOf (bytes : Bytes)
  | retain (slice : Nat) (offset size : UInt64)
  | duplicate (slice : Nat)
  | move (slice : Nat)
  | assign (target source : Nat)
  | fill (slice : Nat) (byte : UInt8)
  | release (slice : Nat)
  | view (slice : Nat)
  | bytes (slice : Nat)
  /-- Move a slice into a new value. -/
  | toValue (slice : Nat)
  deriving DecidableEq, Repr

/-- The operations on composites. -/
inductive CompositeOp where
  | new
  /-- Move a slice to the end of a composite. -/
  | add (composite slice : Nat)
  | view (composite : Nat)
  | component (composite : Nat) (index : UInt64)
  | releaseFront (composite : Nat)
  | release (composite : Nat)
  | move (composite : Nat)
  | assign (target source : Nat)
  /-- Move a composite into a new value. -/
  | toValue (composite : Nat)
  deriving DecidableEq, Repr

/-- The session with the slice at a place replaced. -/
def setSlice (session : Session) (index : Nat) (handle : Handle) : Session :=
  { session with slices := session.slices.set index handle }

/-- The session with the composite at a place replaced. -/
def setComposite (session : Session) (index : Nat) (composite : Composite) : Session :=
  { session with composites := session.composites.set index composite }

/-- Operate on slices. -/
def performSlice (session : Session) : SliceOp → Outcome
  | .allocate size => session.attempt do
    let (pool, slice) ← session.pool.allocate size.toNat
    return { session with pool }.addSlice (some slice)
  | .copyOf bytes => session.attempt do
    let (pool, slice) ← session.pool.copyOf bytes
    return { session with pool }.addSlice (some slice)
  | .retain slice offset size => session.attempt do
    let (pool, part) ← (← session.handleAt slice).retain session.pool offset.toNat size.toNat
    return { session with pool }.addSlice (some part)
  | .duplicate slice => session.attempt do
    let handle ← session.handleAt slice
    let (pool, copy) ← handle.retain session.pool 0 handle.size
    return { session with pool }.addSlice (some copy)
  | .move slice => session.attempt do
    let handle ← session.handleAt slice
    return (session.setSlice slice none).addSlice handle
  | .assign target source => session.attempt do
    let old ← session.handleAt target
    let handle ← session.handleAt source
    if target = source then return (session, .nothing)
    else
      let released := { session with pool := old.release session.pool }
      return ((released.setSlice source none).setSlice target handle, .nothing)
  | .fill slice byte => session.attempt do
    let pool := (← session.handleAt slice).fill session.pool byte
    return ({ session with pool }, .nothing)
  | .release slice => session.attempt do
    let pool := (← session.handleAt slice).release session.pool
    return ({ session with pool }.setSlice slice none, .nothing)
  | .view slice => session.attempt do
    let handle ← session.handleAt slice
    return (session, .slice (handle.view session.pool))
  | .bytes slice => session.attempt do
    let handle ← session.handleAt slice
    return (session, .bytes (handle.bytes session.pool))
  | .toValue slice => session.attempt do
    let handle ← session.handleAt slice
    return (session.setSlice slice none).addValue (.scalar handle)

/-- Operate on composites. -/
def performComposite (session : Session) : CompositeOp → Outcome
  | .new => session.attempt (return session.addComposite Composite.empty)
  | .add composite slice => session.attempt do
    let target ← session.compositeAt composite
    match ← session.handleAt slice with
    | none => throw .precondition
    | some owned =>
      return ((session.setSlice slice none).setComposite composite (target.add owned), .nothing)
  | .view composite => session.attempt do
    let composite ← session.compositeAt composite
    return (session, .composite (← composite.view session.pool))
  | .component composite index => session.attempt do
    let handle ← (← session.compositeAt composite).component index.toNat
    return (session, .bytes (handle.bytes session.pool))
  | .releaseFront composite => session.attempt do
    let (pool, left) := (← session.compositeAt composite).releaseFront session.pool
    return ({ session with pool }.setComposite composite left, .nothing)
  | .release composite => session.attempt do
    let (pool, left) := (← session.compositeAt composite).release session.pool
    return ({ session with pool }.setComposite composite left, .nothing)
  | .move composite => session.attempt do
    let moved ← session.compositeAt composite
    return (session.setComposite composite Composite.empty).addComposite moved
  | .assign target source => session.attempt do
    let old ← session.compositeAt target
    let moved ← session.compositeAt source
    if target = source then return (session, .nothing)
    else
      let (pool, _) := old.release session.pool
      let released := { session with pool }
      return ((released.setComposite source Composite.empty).setComposite target moved, .nothing)
  | .toValue composite => session.attempt do
    let moved ← session.compositeAt composite
    return (session.setComposite composite Composite.empty).addValue (.chunked moved)

end TabularStream.Session
