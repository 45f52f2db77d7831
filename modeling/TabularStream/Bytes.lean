/-
This file fixes what a byte string is and how an unsigned number is laid out in one. Every
multi-byte number of the wire is little-endian, so one pair of functions, `littleEndian` and
`ofLittleEndian`, serves all widths: each undoes the other on the strings and numbers of its
width, also when the number is the front of a longer string. `overwrite` is the only way in which
stored bytes are replaced, and it keeps the length of the storage.
-/

namespace TabularStream

/-- A string of bytes, in the order in which they were received. -/
abbrev Bytes := List UInt8

/-! ### Little-endian numbers -/

/-- How many numbers can be written in `width` bytes. -/
def byteRange : (width : Nat) → Nat
  | 0 => 1
  | width + 1 => 256 * byteRange width

/-- The low `width` bytes of a number, least significant first. -/
def littleEndian : (width value : Nat) → Bytes
  | 0, _ => []
  | width + 1, value => UInt8.ofNat value :: littleEndian width (value / 256)

/-- The number whose bytes, least significant first, are the given ones. -/
def ofLittleEndian : Bytes → Nat
  | [] => 0
  | byte :: rest => byte.toNat + 256 * ofLittleEndian rest

@[simp] theorem littleEndian_length (width value : Nat) :
    (littleEndian width value).length = width := by
  induction width generalizing value with
  | zero => rfl
  | succ width inductionHypothesis => simp [littleEndian, inductionHypothesis]

theorem ofLittleEndian_lt (bytes : Bytes) : ofLittleEndian bytes < byteRange bytes.length := by
  induction bytes with
  | nil => exact Nat.zero_lt_one
  | cons byte rest inductionHypothesis =>
    have small := byte.toNat_lt
    simp only [ofLittleEndian, List.length_cons, byteRange]
    omega

/-- Reading back a number that fits its width gives the number. -/
theorem ofLittleEndian_littleEndian (width value : Nat) (fits : value < byteRange width) :
    ofLittleEndian (littleEndian width value) = value := by
  induction width generalizing value with
  | zero =>
    exact (Nat.lt_one_iff.1 fits).symm
  | succ width inductionHypothesis =>
    have smaller : value / 256 < byteRange width := by
      rw [byteRange] at fits
      omega
    simp only [littleEndian, ofLittleEndian, inductionHypothesis _ smaller, UInt8.toNat_ofNat']
    omega

/-- Laying out the number of a byte string over its own length gives the string. -/
theorem littleEndian_ofLittleEndian (bytes : Bytes) :
    littleEndian bytes.length (ofLittleEndian bytes) = bytes := by
  induction bytes with
  | nil => rfl
  | cons byte rest inductionHypothesis =>
    have small := byte.toNat_lt
    have tail : (byte.toNat + 256 * ofLittleEndian rest) / 256 = ofLittleEndian rest := by omega
    have head : UInt8.ofNat (byte.toNat + 256 * ofLittleEndian rest) = byte := by
      apply UInt8.toNat.inj
      rw [UInt8.toNat_ofNat']
      omega
    simp only [List.length_cons, ofLittleEndian, littleEndian, tail, inductionHypothesis, head]

/-! ### Numbers at the front of a byte string -/

section Front

variable {width : Nat} {bytes : Bytes}

/-- Bytes past the number are not looked at. -/
theorem ofLittleEndian_take_take (width : Nat) (bytes : Bytes) :
    ofLittleEndian ((bytes.take width).take width) = ofLittleEndian (bytes.take width) := by
  rw [List.take_take, Nat.min_self]

/-- A number that was written in front of other bytes is read back. -/
theorem ofLittleEndian_take_append {value : Nat} (fits : value < byteRange width) (rest : Bytes) :
    ofLittleEndian ((littleEndian width value ++ rest).take width) = value := by
  rw [List.take_left' (littleEndian_length width value), ofLittleEndian_littleEndian _ _ fits]

theorem ofLittleEndian_take_lt (enough : width ≤ bytes.length) :
    ofLittleEndian (bytes.take width) < byteRange width := by
  have small := ofLittleEndian_lt (bytes.take width)
  rwa [List.length_take_of_le enough] at small

/-- Writing the number at the front of a byte string gives the bytes there. -/
theorem littleEndian_ofLittleEndian_take (enough : width ≤ bytes.length) :
    littleEndian width (ofLittleEndian (bytes.take width)) = bytes.take width := by
  have back := littleEndian_ofLittleEndian (bytes.take width)
  rwa [List.length_take_of_le enough] at back

end Front

/-! ### Replacing stored bytes -/

/-- The storage with the bytes at `offset` replaced by the given ones. Bytes that would fall
past the end of the storage are left out. -/
def overwrite (storage : Bytes) (offset : Nat) (bytes : Bytes) : Bytes :=
  storage.take offset ++ bytes.take (storage.length - offset) ++
    storage.drop (offset + bytes.length)

@[simp] theorem overwrite_length (storage : Bytes) (offset : Nat) (bytes : Bytes) :
    (overwrite storage offset bytes).length = storage.length := by
  simp only [overwrite, List.length_append, List.length_take, List.length_drop]
  omega

/-- The bytes written are the bytes found there afterwards. -/
theorem overwrite_read (storage : Bytes) (offset : Nat) (bytes : Bytes)
    (fits : offset + bytes.length ≤ storage.length) :
    ((overwrite storage offset bytes).drop offset).take bytes.length = bytes := by
  have whole : bytes.take (storage.length - offset) = bytes :=
    List.take_of_length_le (by omega)
  have front : (storage.take offset).length = offset := by simp; omega
  rw [overwrite, whole, List.append_assoc, List.drop_append_of_le_length (by omega),
    List.drop_of_length_le (by omega), List.nil_append, List.take_left]

end TabularStream
