/-
This file reads and writes the lengths of values. Three kinds of length occur on the wire: the
descriptor in front of a scalar value, whose width and NULL marker depend on the column, the
eight-byte total in front of a PLP value, and the four-byte length in front of each of its chunks.
-/

import TabularStream.Bytes
import TabularStream.ColumnType
import TabularStream.Failure

namespace TabularStream

/-! ### Scalar lengths -/

/-- The length of a scalar value. NULL has no length. -/
inductive ScalarLength where
  | null
  | of (size : UInt32)
  deriving DecidableEq, Repr

namespace ScalarLength

/-- The number of bytes of the value. NULL has none. -/
def size : ScalarLength → Nat
  | null => 0
  | of size => size.toNat

/-- Is the value NULL? -/
def isNull : ScalarLength → Bool
  | null => true
  | of _ => false

/-- The length that a descriptor stands for. Bytes past the descriptor are not looked at. -/
def ofDescriptor (type : ColumnType) (bytes : Bytes) : ScalarLength :=
  if type.strategy = .fixed then of type.maxLength
  else
    let number := ofLittleEndian (bytes.take type.descriptorSize)
    if type.strategy.nullMarker? = some number then null else of (UInt32.ofNat number)

/-- Only the bytes of the descriptor matter. -/
theorem ofDescriptor_take (type : ColumnType) (bytes : Bytes) :
    ofDescriptor type (bytes.take type.descriptorSize) = ofDescriptor type bytes := by
  simp only [ofDescriptor, ofLittleEndian_take_take]

theorem ofDescriptor_append {type : ColumnType} {descriptor : Bytes}
    (width : descriptor.length = type.descriptorSize) (rest : Bytes) :
    ofDescriptor type (descriptor ++ rest) = ofDescriptor type descriptor := by
  rw [← ofDescriptor_take, List.take_left' width]

/-- The length at the front of a byte string, which has to hold a whole descriptor. -/
def parse (type : ColumnType) (bytes : Bytes) : Except Failure ScalarLength :=
  if bytes.length < type.descriptorSize then .error .precondition
  else .ok (ofDescriptor type bytes)

/-- The descriptor of a length. A length that the column's strategy cannot express is refused. -/
def encode (type : ColumnType) (length : ScalarLength) : Except Failure Bytes :=
  match type.strategy, length with
  | .fixed, _ => .ok []
  | .byte, null => .ok [0x00]
  | .byte, of size =>
    if size = 0 ∨ 0xFF < size then .error .precondition else .ok (littleEndian 1 size.toNat)
  | .ushort, null => .ok [0xFF, 0xFF]
  | .ushort, of size =>
    if 0xFFFF ≤ size then .error .precondition else .ok (littleEndian 2 size.toNat)
  | .long, null => .ok [0xFF, 0xFF, 0xFF, 0xFF]
  | .long, of size => .ok (littleEndian 4 size.toNat)
  | .part, null => .error .precondition
  | .part, of size => .ok (littleEndian 4 size.toNat)

end ScalarLength

/-! ### PLP totals -/

/-- The total in front of a PLP value. Apart from the NULL marker it is only informational: a
value ends at its terminator, whatever its total says. -/
structure PlpTotal where
  value : UInt64
  deriving DecidableEq, Repr

namespace PlpTotal

/-- The number of bytes of a total. -/
def width : Nat := 8

/-- The total of NULL. -/
def null : PlpTotal := ⟨0xFFFFFFFFFFFFFFFF⟩

/-- The total of a value whose length the server does not know in advance. -/
def unknown : PlpTotal := ⟨0xFFFFFFFFFFFFFFFE⟩

/-- Does the total stand for NULL? -/
def isNull (total : PlpTotal) : Bool := total == null

/-- Does the total leave the length open? -/
def isUnknown (total : PlpTotal) : Bool := total == unknown

/-- The total at the front of a byte string. -/
def ofBytes (bytes : Bytes) : PlpTotal := ⟨UInt64.ofNat (ofLittleEndian (bytes.take width))⟩

/-- The bytes of a total. -/
def encode (total : PlpTotal) : Bytes := littleEndian width total.value.toNat

/-- Only the bytes of the total matter. -/
theorem ofBytes_take (bytes : Bytes) : ofBytes (bytes.take width) = ofBytes bytes := by
  rw [ofBytes, ofLittleEndian_take_take, ofBytes]

@[simp] theorem encode_length (total : PlpTotal) : total.encode.length = width :=
  littleEndian_length _ _

/-- A written total is read back, whatever follows it. -/
theorem ofBytes_encode_append (total : PlpTotal) (rest : Bytes) :
    ofBytes (total.encode ++ rest) = total := by
  have fits : total.value.toNat < byteRange width := total.value.toNat_lt
  rw [ofBytes, encode, ofLittleEndian_take_append fits, UInt64.ofNat_toNat]

theorem ofBytes_encode (total : PlpTotal) : ofBytes total.encode = total := by
  have same := ofBytes_encode_append total []
  rwa [List.append_nil] at same

/-- Writing the total at the front of a byte string gives the bytes there. -/
theorem encode_ofBytes {bytes : Bytes} (enough : width ≤ bytes.length) :
    (ofBytes bytes).encode = bytes.take width := by
  rw [encode, ofBytes, UInt64.toNat_ofNat_of_lt' (ofLittleEndian_take_lt enough),
    littleEndian_ofLittleEndian_take enough]

end PlpTotal

/-! ### Chunk lengths -/

/-- The length in front of a chunk of a PLP value. A chunk of length zero is the terminator. -/
structure ChunkLength where
  size : UInt32
  deriving DecidableEq, Repr

namespace ChunkLength

/-- The number of bytes of a chunk's length. -/
def width : Nat := 4

/-- The chunk length at the front of a byte string. -/
def ofBytes (bytes : Bytes) : ChunkLength := ⟨UInt32.ofNat (ofLittleEndian (bytes.take width))⟩

/-- The bytes of a chunk's length. -/
def encode (length : ChunkLength) : Bytes := littleEndian width length.size.toNat

/-- Only the bytes of the length matter. -/
theorem ofBytes_take (bytes : Bytes) : ofBytes (bytes.take width) = ofBytes bytes := by
  rw [ofBytes, ofLittleEndian_take_take, ofBytes]

@[simp] theorem encode_length (length : ChunkLength) : length.encode.length = width :=
  littleEndian_length _ _

/-- A written chunk length is read back, whatever follows it. -/
theorem ofBytes_encode_append (length : ChunkLength) (rest : Bytes) :
    ofBytes (length.encode ++ rest) = length := by
  have fits : length.size.toNat < byteRange width := length.size.toNat_lt
  rw [ofBytes, encode, ofLittleEndian_take_append fits, UInt32.ofNat_toNat]

theorem ofBytes_encode (length : ChunkLength) : ofBytes length.encode = length := by
  have same := ofBytes_encode_append length []
  rwa [List.append_nil] at same

/-- Writing the chunk length at the front of a byte string gives the bytes there. -/
theorem encode_ofBytes {bytes : Bytes} (enough : width ≤ bytes.length) :
    (ofBytes bytes).encode = bytes.take width := by
  rw [encode, ofBytes, UInt32.toNat_ofNat_of_lt' (ofLittleEndian_take_lt enough),
    littleEndian_ofLittleEndian_take enough]

/-- The number of payload bytes. -/
def toNat (length : ChunkLength) : Nat := length.size.toNat

/-- Is the chunk the one that ends its value? -/
def isTerminator (length : ChunkLength) : Bool := length.size == 0

theorem toNat_ne_zero {length : ChunkLength} (chunk : length.isTerminator = false) :
    length.toNat ≠ 0 := by
  intro zero
  have size : length.size = 0 := UInt32.toNat_inj.1 zero
  exact beq_eq_false_iff_ne.1 chunk size

end ChunkLength

end TabularStream
