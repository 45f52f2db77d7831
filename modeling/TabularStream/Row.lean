/-
This file holds rows. A row has a slot for each column, and the slot says who owns the data of the
column: nobody, because the column is NULL; the row; whoever took the data out of the row; or
nobody any more, because the row was released. A slot leaves the row's ownership once.
-/

import TabularStream.Value

namespace TabularStream

/-- Who owns the data of one column. -/
inductive Slot where
  /-- The column is NULL. -/
  | null
  /-- The row owns the data. -/
  | owned (value : Value)
  /-- The data was taken out of the row. -/
  | transferred
  /-- The row was released while it owned the data. -/
  | released
  deriving DecidableEq, Repr

namespace Slot

/-- The word for the state of a slot. -/
def name : Slot → String
  | null => "null"
  | owned _ => "owned"
  | transferred => "transferred"
  | released => "released"

/-- Is the column NULL? -/
def isNull : Slot → Bool
  | null => true
  | _ => false

/-- The data that the row owns. -/
def value? : Slot → Option Value
  | owned value => some value
  | _ => none

/-- The slices that the row owns. -/
def slices (slot : Slot) : List Slice :=
  match slot with
  | owned value => value.slices
  | _ => []

/-- The slot after the row has given up what it owned. -/
def afterRelease : Slot → Slot
  | owned _ => released
  | slot => slot

end Slot

/-- The columns of one row. -/
structure Row where
  slots : List Slot
  deriving DecidableEq, Repr

namespace Row

/-- The greatest number of columns that a row can have. A slot takes the room of six 64-bit
words. -/
def largest : Nat := Word.largestSize / 48

/-- A row of NULL columns. -/
def new (columns : Nat) : Except Failure Row :=
  if largest < columns then .error (.tooLarge .sequence)
  else .ok ⟨List.replicate columns .null⟩

/-- The number of columns whose data the row owns. -/
def ownedCount (row : Row) : Nat := row.slots.countP fun slot => slot.value?.isSome

/-- The slices that the row owns. -/
def slices (row : Row) : List Slice := row.slots.flatMap Slot.slices

/-- The slot of a column. -/
def slot (row : Row) (index : Nat) : Except Failure Slot :=
  match row.slots[index]? with
  | some slot => .ok slot
  | none => .error .outOfRange

/-- The row with the slot of one column replaced. -/
def setSlot (row : Row) (index : Nat) (slot : Slot) : Row := ⟨row.slots.set index slot⟩

/-- Give the row the data of a column that is NULL so far. -/
def put (row : Row) (index : Nat) (value : Value) : Except Failure Row :=
  match row.slots[index]? with
  | none => .error .outOfRange
  | some .null => .ok (row.setSlot index (.owned value))
  | some _ => .error .precondition

/-- Take the data of a column out of the row. A NULL column has none; data that the row owned
once and owns no more cannot be taken. -/
def take (row : Row) (index : Nat) : Except Failure (Option Value × Row) :=
  match row.slots[index]? with
  | none => .error .outOfRange
  | some .null => .ok (none, row)
  | some (.owned value) => .ok (some value, row.setSlot index .transferred)
  | some .transferred => .error .alreadyTransferred
  | some .released => .error .rowReleased

/-- Release the data that the row owns. Data that was taken out stays with its owner. -/
def release (row : Row) (pool : Pool) : Pool × Row :=
  (pool.releaseAll row.slices, ⟨row.slots.map Slot.afterRelease⟩)

end Row

end TabularStream
