/-
This file holds the operations of a session on values, on the large objects made from them and on
the streams over those.
-/

import TabularStream.Session.State

namespace TabularStream.Session

/-- The operations on values, large objects and streams. -/
inductive ValueOp where
  /-- Make a PLP value with the given components. -/
  | ofParts (parts : List Bytes)
  /-- Make a scalar value, one that owns nothing if there are no bytes to copy. -/
  | ofBytes (bytes : Option Bytes)
  | view (value : Nat)
  | drop (value : Nat)
  /-- Move a value into a large object. -/
  | lob (kind : LargeObjectKind) (value : Nat) (type : ColumnType) (demand : UInt64)
  /-- Move the data of a column into a large object. -/
  | lobOfRow (kind : LargeObjectKind) (row column : Nat) (type : ColumnType) (demand : UInt64)
  | viewLob (lob : Nat)
  | openLob (lob : Nat)
  | discardLob (lob : Nat)
  | dropLob (lob : Nat)
  | stream (stream : Nat) (op : Stream.Op)
  | dropStream (stream : Nat)
  deriving DecidableEq, Repr

/-- Move a value into a large object. The value is gone also when its type is refused. -/
def makeLob (session : Session) (kind : LargeObjectKind) (value : Nat) (type : ColumnType)
    (config : StreamConfig) : Outcome :=
  match session.valueAt value with
  | .error failure => ⟨session, .error failure⟩
  | .ok data =>
    let moved := { session with values := session.values.set value (some data.emptied) }
    match Lob.ofValue kind data type config with
    | .ok lob =>
      let (after, reply) := moved.addLob lob
      ⟨after, .ok reply⟩
    | .error failure => ⟨{ moved with pool := data.release session.pool }, .error failure⟩

/-- Operate on values, large objects and streams. -/
def performValue (session : Session) : ValueOp → Outcome
  | .ofParts parts => session.attempt do
    let (pool, value) ← Value.ofParts session.pool parts
    return { session with pool }.addValue value
  | .ofBytes none => session.attempt (return session.addValue (.scalar none))
  | .ofBytes (some bytes) => session.attempt do
    let (pool, value) ← Value.ofBytes session.pool bytes
    return { session with pool }.addValue value
  | .view value => session.attempt do
    let value ← session.valueAt value
    return (session, .data (some (← value.view session.pool)))
  | .drop value => session.attempt do
    let pool := session.pool.releaseAll (← slicesAt Value.slices session.values value)
    return ({ session with pool, values := session.values.set value none }, .nothing)
  | .lob kind value type demand => session.makeLob kind value type ⟨demand⟩
  | .lobOfRow kind row column type demand => session.attempt do
    match ← Lob.ofRow kind (← session.rowAt row) column type ⟨demand⟩ with
    | (none, _) => return (session, .moved none)
    | (some lob, left) =>
      let after := { session with rows := session.rows.set row (some left) }
      return ((after.addLob lob).1, .moved (some session.lobs.length))
  | .viewLob lob => session.attempt do
    let lob ← session.lobAt lob
    return (session, .lob lob.owns lob.type.serverType)
  | .openLob lob => session.attempt do
    let (stream, left) ← (← session.lobAt lob).stream
    return { session with lobs := session.lobs.set lob (some left) }.addStream stream
  | .discardLob lob => session.attempt do
    let (pool, left) := (← session.lobAt lob).discard session.pool
    return ({ session with pool, lobs := session.lobs.set lob (some left) }, .nothing)
  | .dropLob lob => session.attempt do
    let pool := session.pool.releaseAll (← slicesAt Lob.slices session.lobs lob)
    return ({ session with pool, lobs := session.lobs.set lob none }, .nothing)
  | .stream stream op => session.attempt do
    let used := (← session.streamAt stream).perform session.pool op
    return ({ session with
        pool := used.pool, streams := session.streams.set stream (some used.stream) },
      .stream used.answer)
  | .dropStream stream => session.attempt do
    let pool := session.pool.releaseAll (← slicesAt Stream.slices session.streams stream)
    return ({ session with pool, streams := session.streams.set stream none }, .nothing)

end TabularStream.Session
