/-
This file holds large objects that have not been read yet. A large object owns its value until it
is turned into a stream, which can be done once, or discarded. It is made from a value or from a
column of a row, and only for a column whose type goes with its kind.
-/

import TabularStream.LargeObject.Stream
import TabularStream.Row

namespace TabularStream

/-- A large object. -/
structure Lob where
  kind : LargeObjectKind
  /-- The value, until it is read or discarded. -/
  value : Option Value
  type : ColumnType
  config : StreamConfig
  deriving DecidableEq, Repr

namespace Lob

/-- Can the object still be read? -/
def owns (lob : Lob) : Bool := lob.value.isSome

/-- The slices that the object owns. -/
def slices (lob : Lob) : List Slice :=
  match lob.value with
  | some value => value.slices
  | none => []

/-- The large object of a value. -/
def ofValue (kind : LargeObjectKind) (value : Value) (type : ColumnType)
    (config : StreamConfig) : Except Failure Lob :=
  if kind.accepts type then .ok ⟨kind, some value, type, config⟩
  else .error (.client .decodePreconditionViolated)

/-- Take the large object of a column out of a row. A NULL column has none. The type is looked at
first, so a row stays as it is when the type is wrong. -/
def ofRow (kind : LargeObjectKind) (row : Row) (index : Nat) (type : ColumnType)
    (config : StreamConfig) : Except Failure (Option Lob × Row) :=
  if kind.accepts type then
    match row.take index with
    | .ok (some value, row) => .ok (some ⟨kind, some value, type, config⟩, row)
    | .ok (none, row) => .ok (none, row)
    | .error failure => .error failure
  else .error (.client .decodePreconditionViolated)

/-- Turn the object into a stream, which owns the value from now on. -/
def stream (lob : Lob) : Except Failure (Stream × Lob) :=
  match lob.value with
  | some value =>
    .ok (Stream.ofValue lob.kind value lob.type lob.config, { lob with value := none })
  | none => .error .alreadyConsumed

/-- Release the value without reading it. -/
def discard (lob : Lob) (pool : Pool) : Pool × Lob :=
  (pool.releaseAll lob.slices, { lob with value := none })

end Lob

end TabularStream
