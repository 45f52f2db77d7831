/-
This file holds the operations of a session on rows: reading them from the receive buffer, looking
at them, and moving data into them and out of them.
-/

import TabularStream.Session.State

namespace TabularStream.Session

/-- The operations on rows. A column is named by its row and its index there. -/
inductive RowOp where
  | setColumns (columns : List ColumnType)
  | canDecode
  | canDecodeBitmap
  | decode
  | decodeBitmap
  | resume
  | view (row : Nat)
  | slot (row column : Nat)
  | data (row column : Nat)
  | take (row column : Nat)
  | new (columns : Nat)
  /-- Move a value into a column. -/
  | put (row column value : Nat)
  | release (row : Nat)
  | drop (row : Nat)
  deriving DecidableEq, Repr

/-- The session after reading from its buffer. -/
def afterReading {Item : Type} (session : Session) (reading : Reading Item) : Session :=
  { session with pool := reading.pool, buffer := reading.buffer }

/-- The outcome of asking the buffer. -/
def answerFlag (session : Session) (reading : Reading Bool) : Outcome :=
  ⟨session.afterReading reading, reading.result.map .flag⟩

/-- The outcome of reading a row. A failure leaves the cursor where the reading stopped. -/
def receiveRow (session : Session) (reading : Reading Row) : Outcome :=
  let after := session.afterReading reading
  match reading.result with
  | .error failure => ⟨after, .error failure⟩
  | .ok row =>
    let (after, reply) := after.addRow row
    ⟨after, .ok reply⟩

/-- The outcome of resuming the reading of rows. -/
def receiveToken (session : Session) (reading : Reading Resumed) : Outcome :=
  let after := session.afterReading reading
  match reading.result with
  | .error failure => ⟨after, .error failure⟩
  | .ok .needsMore => ⟨after, .ok .needsMore⟩
  | .ok (.unexpected error) => ⟨after, .ok (.unexpected error)⟩
  | .ok (.row row) => ⟨(after.addRow row).1, .ok (.received after.rows.length)⟩

/-- Move a value into a column. The value is gone also when the column does not take it. -/
def putValue (session : Session) (row column value : Nat) : Outcome :=
  match session.rowAt row, session.valueAt value with
  | .ok target, .ok data =>
    let moved := { session with values := session.values.set value (some data.emptied) }
    match target.put column data with
    | .ok filled => ⟨{ moved with rows := session.rows.set row (some filled) }, .ok .nothing⟩
    | .error failure => ⟨{ moved with pool := data.release session.pool }, .error failure⟩
  | .error failure, _ => ⟨session, .error failure⟩
  | _, .error failure => ⟨session, .error failure⟩

/-- Operate on rows. -/
def performRow (session : Session) : RowOp → Outcome
  | .setColumns columns => ⟨{ session with columns }, .ok .nothing⟩
  | .canDecode => session.answerFlag (session.buffer.canDecode session.pool session.columns)
  | .canDecodeBitmap =>
    session.answerFlag (session.buffer.canDecodeBitmap session.pool session.columns)
  | .decode => session.receiveRow (session.buffer.decode session.pool session.columns)
  | .decodeBitmap => session.receiveRow (session.buffer.decodeBitmap session.pool session.columns)
  | .resume => session.receiveToken (session.buffer.resume session.pool session.columns)
  | .view row => session.attempt do
    let row ← session.rowAt row
    return (session, .row (← row.view session.pool))
  | .slot row column => session.attempt do
    let slot ← (← session.rowAt row).slot column
    return (session, .slot slot.name)
  | .data row column => session.attempt do
    let slot ← (← session.rowAt row).slot column
    return (session, .data (← slot.dataView session.pool))
  | .take row column => session.attempt do
    match ← (← session.rowAt row).take column with
    | (none, _) => return (session, .moved none)
    | (some value, left) =>
      let after := { session with rows := session.rows.set row (some left) }
      return ((after.addValue value).1, .moved (some session.values.length))
  | .new columns => session.attempt do
    return session.addRow (← Row.new columns)
  | .put row column value => session.putValue row column value
  | .release row => session.attempt do
    let (pool, released) := (← session.rowAt row).release session.pool
    return ({ session with pool, rows := session.rows.set row (some released) }, .nothing)
  | .drop row => session.attempt do
    let pool := session.pool.releaseAll (← slicesAt Row.slices session.rows row)
    return ({ session with pool, rows := session.rows.set row none }, .nothing)

end TabularStream.Session
