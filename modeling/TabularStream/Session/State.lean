/-
This file holds the state of a session: one pool, one receive buffer, and everything that has been
made from them, in lists in which each object keeps its place. An object that has been dropped
leaves an empty place; one whose contents have been moved elsewhere stays behind empty.

An operation of a session gives an `Outcome`: the session after it and an answer or a failure.
Most operations change nothing when they fail; `attempt` makes an outcome of such an operation.
-/

import TabularStream.LargeObject.Lob
import TabularStream.ReceiveBuffer
import TabularStream.Row.Token

namespace TabularStream

/-- The state of a session. -/
structure Session where
  pool : Pool
  buffer : ReceiveBuffer
  /-- The columns of the rows that are read. -/
  columns : List ColumnType
  slices : List Handle
  composites : List Composite
  rows : List (Option Row)
  values : List (Option Value)
  lobs : List (Option Lob)
  streams : List (Option Stream)
  deriving DecidableEq, Repr

/-! ### Views

The bytes of a view are copied, which fails if they are claimed to be more than there can be. -/

/-- What can be seen of a slice. -/
structure SliceView where
  owns : Bool
  size : Nat
  useCount : Nat
  deriving DecidableEq, Repr

/-- What can be seen of a composite. -/
structure CompositeView where
  owns : Bool
  count : Nat
  size : Nat
  bytes : Bytes
  deriving DecidableEq, Repr

/-- What can be seen of a value. Only a composite has components. -/
structure ValueView where
  size : Nat
  bytes : Bytes
  components : Option (List Nat)
  deriving DecidableEq, Repr

/-- What can be seen of the slot of a row. -/
structure SlotView where
  state : String
  isNull : Bool
  data : Option ValueView
  deriving DecidableEq, Repr

/-- What can be seen of a row. -/
structure RowView where
  ownedCount : Nat
  slots : List SlotView
  deriving DecidableEq, Repr

/-- The view of a slice. -/
def Handle.view (handle : Handle) (pool : Pool) : SliceView :=
  ⟨handle.isSome, handle.size, handle.useCount pool⟩

/-- The view of a composite. -/
def Composite.view (composite : Composite) (pool : Pool) : Except Failure CompositeView :=
  match composite.copy pool with
  | .ok bytes => .ok ⟨composite.owns, composite.count, composite.size, bytes⟩
  | .error failure => .error failure

/-- The sizes of the components of a value, if it is a composite. -/
def Value.componentSizes : Value → Option (List Nat)
  | scalar _ => none
  | chunked composite => some (composite.live.map Slice.size)

/-- The view of a value. -/
def Value.view (value : Value) (pool : Pool) : Except Failure ValueView :=
  match value.copy pool with
  | .ok bytes => .ok ⟨value.size, bytes, value.componentSizes⟩
  | .error failure => .error failure

/-- The view of the data that a row owns. -/
def Slot.dataView (slot : Slot) (pool : Pool) : Except Failure (Option ValueView) :=
  match slot.value? with
  | some value => (value.view pool).map some
  | none => .ok none

/-- The view of a slot. -/
def Slot.view (slot : Slot) (pool : Pool) : Except Failure SlotView :=
  (slot.dataView pool).map fun data => ⟨slot.name, slot.isNull, data⟩

/-- The view of a row. -/
def Row.view (row : Row) (pool : Pool) : Except Failure RowView :=
  (row.slots.mapM (Slot.view · pool)).map fun slots => ⟨row.ownedCount, slots⟩

/-! ### Outcomes -/

namespace Session

/-- The answers to the operations of a session. -/
inductive Reply where
  | nothing
  /-- The place of a new object in its list. -/
  | made (index : Nat)
  /-- The place of a new object, if one was made. -/
  | moved (index : Option Nat)
  | count (value : Nat)
  | integer (value : Int)
  | flag (value : Bool)
  | bytes (bytes : Bytes)
  | scalarLength (length : ScalarLength)
  | total (total : PlpTotal)
  /-- No whole token is readable. -/
  | needsMore
  /-- The next token is not a row. -/
  | unexpected (error : ClientError)
  /-- The place of a row that was read from a token. -/
  | received (index : Nat)
  | row (view : RowView)
  | slot (state : String)
  | data (view : Option ValueView)
  | lob (owns : Bool) (type : ServerType)
  | stream (reply : Stream.Reply)
  | slice (view : SliceView)
  | composite (view : CompositeView)
  deriving DecidableEq, Repr

/-- A session after an operation, and what the operation gave. -/
structure Outcome where
  session : Session
  result : Except Failure Reply

/-- A session without objects. -/
def new (config : PoolConfig) (columns : List ColumnType) : Except Failure Session :=
  (Pool.new config).map fun pool => ⟨pool, ReceiveBuffer.empty, columns, [], [], [], [], [], []⟩

/-- The outcome of an operation that changes nothing when it fails. -/
def attempt (session : Session) (operation : Except Failure (Session × Reply)) : Outcome :=
  match operation with
  | .ok (after, reply) => ⟨after, .ok reply⟩
  | .error failure => ⟨session, .error failure⟩

/-- What a place holds, which is nothing after its object has been dropped. -/
def placeAt {Object : Type} (objects : List (Option Object)) (index : Nat) :
    Except Failure (Option Object) :=
  match objects[index]? with
  | some place => .ok place
  | none => .error .unknownHandle

/-- The object at a place, if there is one. -/
def objectAt {Object : Type} (objects : List (Option Object)) (index : Nat) :
    Except Failure Object :=
  match objects[index]? with
  | some (some object) => .ok object
  | _ => .error .unknownHandle

/-- The slices of the object at a place, none if it has been dropped. -/
def slicesAt {Object : Type} (slices : Object → List Slice) (objects : List (Option Object))
    (index : Nat) : Except Failure (List Slice) :=
  (placeAt objects index).map fun place => (place.map slices).getD []

/-- The slice at a place. It may be an empty one. -/
def handleAt (session : Session) (index : Nat) : Except Failure Handle :=
  placeAt session.slices index

/-- The composite at a place. -/
def compositeAt (session : Session) (index : Nat) : Except Failure Composite :=
  match session.composites[index]? with
  | some composite => .ok composite
  | none => .error .unknownHandle

/-- The row at a place. -/
def rowAt (session : Session) (index : Nat) : Except Failure Row := objectAt session.rows index

/-- The value at a place. -/
def valueAt (session : Session) (index : Nat) : Except Failure Value :=
  objectAt session.values index

/-- The large object at a place. -/
def lobAt (session : Session) (index : Nat) : Except Failure Lob := objectAt session.lobs index

/-- The stream at a place. -/
def streamAt (session : Session) (index : Nat) : Except Failure Stream :=
  objectAt session.streams index

/-- The session with another slice. -/
def addSlice (session : Session) (handle : Handle) : Session × Reply :=
  ({ session with slices := session.slices ++ [handle] }, .made session.slices.length)

/-- The session with another composite. -/
def addComposite (session : Session) (composite : Composite) : Session × Reply :=
  ({ session with composites := session.composites ++ [composite] },
    .made session.composites.length)

/-- The session with another row. -/
def addRow (session : Session) (row : Row) : Session × Reply :=
  ({ session with rows := session.rows ++ [some row] }, .made session.rows.length)

/-- The session with another value. -/
def addValue (session : Session) (value : Value) : Session × Reply :=
  ({ session with values := session.values ++ [some value] }, .made session.values.length)

/-- The session with another large object. -/
def addLob (session : Session) (lob : Lob) : Session × Reply :=
  ({ session with lobs := session.lobs ++ [some lob] }, .made session.lobs.length)

/-- The session with another stream. -/
def addStream (session : Session) (stream : Stream) : Session × Reply :=
  ({ session with streams := session.streams ++ [some stream] }, .made session.streams.length)

end Session

end TabularStream
