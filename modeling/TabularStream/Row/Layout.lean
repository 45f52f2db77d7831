/-
This file says which columns a row has values for. A row without a bitmap has one for each column.
A row with a NULL bitmap starts with a bit for each column and leaves out the columns whose bit is
set. Both kinds of row are described by a layout: the columns in order, with nothing in place of
those that are left out.
-/

import TabularStream.Bytes
import TabularStream.ColumnType

namespace TabularStream

/-- The columns of a row, with nothing in place of those that its bitmap leaves out. -/
abbrev RowLayout := List (Option ColumnType)

/-- The layout of a row without a bitmap. -/
def RowLayout.full (columns : List ColumnType) : RowLayout := columns.map some

/-- The number of bytes of the NULL bitmap for a number of columns. -/
def bitmapSize (columns : Nat) : Nat := (columns + 7) / 8

/-- Is the bit of a column set? Bits are counted from the least significant one of the first
byte. -/
def isMarkedNull (bitmap : Bytes) (index : Nat) : Bool :=
  (bitmap.getD (index / 8) 0).toNat.testBit (index % 8)

/-- The layout of a row with the given bitmap. -/
def RowLayout.ofBitmap (bitmap : Bytes) (columns : List ColumnType) : RowLayout :=
  columns.mapIdx fun index type => if isMarkedNull bitmap index then none else some type

end TabularStream
