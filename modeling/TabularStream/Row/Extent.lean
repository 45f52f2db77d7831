/-
This file says where the values of a row end. A row is a value for each column, one after the
other, and each value announces its own length: a scalar in its descriptor, a PLP value in its
chunks, the last of which is empty. `afterValue` gives the bytes that follow a value, or nothing
when the value is not complete, and the same is said of a whole row.
-/

import TabularStream.Length
import TabularStream.Row.Layout

namespace TabularStream

/-! ### One value -/

/-- The bytes after the chunks of a PLP value, the empty one included. -/
def afterChunks (bytes : Bytes) : Option Bytes :=
  if bytes.length < ChunkLength.width then none
  else
    let length := ChunkLength.ofBytes bytes
    let rest := bytes.drop ChunkLength.width
    if length.isTerminator then some rest
    else if rest.length < length.toNat then none
    else afterChunks (rest.drop length.toNat)
termination_by bytes.length
decreasing_by
  simp only [List.length_drop, ChunkLength.width] at *
  omega

/-- The bytes after a PLP value. -/
def afterPlp (bytes : Bytes) : Option Bytes :=
  if bytes.length < PlpTotal.width then none
  else if (PlpTotal.ofBytes bytes).isNull then some (bytes.drop PlpTotal.width)
  else afterChunks (bytes.drop PlpTotal.width)

namespace ColumnType

/-- The bytes after a scalar value. -/
def afterScalar (type : ColumnType) (bytes : Bytes) : Option Bytes :=
  if bytes.length < type.descriptorSize then none
  else
    let size := (ScalarLength.ofDescriptor type bytes).size
    let rest := bytes.drop type.descriptorSize
    if rest.length < size then none else some (rest.drop size)

/-- The bytes after the value of a column. -/
def afterValue (type : ColumnType) (bytes : Bytes) : Option Bytes :=
  if type.isPlp then afterPlp bytes else type.afterScalar bytes

end ColumnType

/-! ### Whole rows -/

/-- The bytes after the values of the columns that are present. -/
def RowLayout.after : RowLayout → Bytes → Option Bytes
  | [], bytes => some bytes
  | none :: columns, bytes => RowLayout.after columns bytes
  | some type :: columns, bytes =>
    match type.afterValue bytes with
    | some rest => RowLayout.after columns rest
    | none => none

end TabularStream
