/-
This file lists what a session owns. Every slice that has been handed out belongs to exactly one
object: the receive buffer, a place for a slice, a composite, a row, a value, a large object or a
stream. The references of a block are the slices of it in this list.
-/

import TabularStream.Session.State

namespace TabularStream

/-- The slices that a receive buffer owns. -/
def ReceiveBuffer.slices (buffer : ReceiveBuffer) : List Slice := buffer.block.toList

namespace Session

/-- The slices of the objects that have not been dropped. -/
def slicesOf {Object : Type} (slices : Object → List Slice) (objects : List (Option Object)) :
    List Slice :=
  objects.flatMap fun object => (object.map slices).getD []

/-- The slices that the objects of a session own. -/
def owned (session : Session) : List Slice :=
  session.buffer.slices ++ session.slices.flatMap Option.toList ++
    session.composites.flatMap Composite.live ++ slicesOf Row.slices session.rows ++
    slicesOf Value.slices session.values ++ slicesOf Lob.slices session.lobs ++
    slicesOf Stream.slices session.streams

/-- The number of slices of a block that the objects of a session own. -/
def handles (session : Session) (id : BlockId) : Nat :=
  session.owned.countP fun slice => slice.block == id

end Session

end TabularStream
