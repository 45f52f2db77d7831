/-
This file holds the operations of a session on its receive buffer, and on the lengths that are
read from it.
-/

import TabularStream.Session.State

namespace TabularStream.Session

/-- The operations on the receive buffer. Counts are 64-bit words. -/
inductive BufferOp where
  | append (bytes : Bytes)
  | prepare (count : UInt64)
  | commit (count : UInt64)
  /-- Prepare room for some bytes, copy them there and commit a part of the room. -/
  | write (bytes : Bytes) (count : UInt64)
  | readable
  | reset (index : UInt64)
  | skip (count : UInt64)
  | readUnsigned (width : Nat)
  | readSigned (width : Nat)
  | readSlice (count : UInt64)
  | discard
  | release
  | canReadScalarLength (type : ColumnType)
  | canReadTotal
  | canReadChunkLength
  | readScalarLength (type : ColumnType)
  | readTotal
  | readChunkLength
  deriving DecidableEq, Repr

/-- Prepare, copy and commit. What was prepared and copied stays when committing fails. -/
def writeBytes (session : Session) (bytes : Bytes) (count : Nat) : Outcome :=
  match session.buffer.prepare session.pool bytes.length with
  | .error failure => ⟨session, .error failure⟩
  | .ok (pool, buffer, room) =>
    let filled := { session with pool := buffer.fillRegion pool bytes, buffer }
    match buffer.commit count with
    | .error failure => ⟨filled, .error failure⟩
    | .ok committed => ⟨{ filled with buffer := committed }, .ok (.count room)⟩

/-- Operate on the receive buffer. -/
def performBuffer (session : Session) : BufferOp → Outcome
  | .append bytes => session.attempt do
    let (pool, buffer) ← session.buffer.append session.pool bytes
    return ({ session with pool, buffer }, .nothing)
  | .prepare count => session.attempt do
    let (pool, buffer, room) ← session.buffer.prepare session.pool count.toNat
    return ({ session with pool, buffer }, .count room)
  | .commit count => session.attempt do
    let buffer ← session.buffer.commit count.toNat
    return ({ session with buffer }, .nothing)
  | .write bytes count => session.writeBytes bytes count.toNat
  | .readable => ⟨session, .ok (.bytes (session.buffer.readable session.pool))⟩
  | .reset index => session.attempt do
    let buffer ← session.buffer.reset index.toNat
    return ({ session with buffer }, .nothing)
  | .skip count => session.attempt do
    let buffer ← session.buffer.skip count.toNat
    return ({ session with buffer }, .nothing)
  | .readUnsigned width => session.attempt do
    let (buffer, number) ← session.buffer.readUnsigned session.pool width
    return ({ session with buffer }, .integer number)
  | .readSigned width => session.attempt do
    let (buffer, number) ← session.buffer.readSigned session.pool width
    return ({ session with buffer }, .integer number)
  | .readSlice count => session.attempt do
    let (pool, buffer, slice) ← session.buffer.readSlice session.pool count.toNat
    return { session with pool, buffer }.addSlice (some slice)
  | .discard =>
    let (pool, buffer) := session.buffer.discard session.pool
    ⟨{ session with pool, buffer }, .ok .nothing⟩
  | .release =>
    let (pool, buffer) := session.buffer.release session.pool
    ⟨{ session with pool, buffer }, .ok .nothing⟩
  | .canReadScalarLength type => ⟨session, .ok (.flag (session.buffer.canReadScalarLength type))⟩
  | .canReadTotal => ⟨session, .ok (.flag session.buffer.canReadTotal)⟩
  | .canReadChunkLength => ⟨session, .ok (.flag session.buffer.canReadChunkLength)⟩
  | .readScalarLength type => session.attempt do
    let (buffer, length) ← session.buffer.readScalarLength session.pool type
    return ({ session with buffer }, .scalarLength length)
  | .readTotal => session.attempt do
    let (buffer, total) ← session.buffer.readTotal session.pool
    return ({ session with buffer }, .total total)
  | .readChunkLength => session.attempt do
    let (buffer, length) ← session.buffer.readChunkLength session.pool
    return ({ session with buffer }, .count length.toNat)

end TabularStream.Session
