/-
This file puts the operations of a session together. `step` performs one of them and `run` performs
a list of them, going on after those that fail.
-/

import TabularStream.Session.Receiving
import TabularStream.Session.Rows
import TabularStream.Session.Slices
import TabularStream.Session.Values

namespace TabularStream.Session

/-- The operations of a session. -/
inductive Op where
  | buffer (op : BufferOp)
  | row (op : RowOp)
  | value (op : ValueOp)
  | slice (op : SliceOp)
  | composite (op : CompositeOp)
  deriving DecidableEq, Repr

/-- Perform an operation. -/
def step (session : Session) : Op → Outcome
  | .buffer op => session.performBuffer op
  | .row op => session.performRow op
  | .value op => session.performValue op
  | .slice op => session.performSlice op
  | .composite op => session.performComposite op

/-- Perform operations, one after the other. Gives the outcome of each. -/
def run (session : Session) : List Op → List Outcome
  | [] => []
  | op :: rest =>
    let outcome := session.step op
    outcome :: outcome.session.run rest

end TabularStream.Session
