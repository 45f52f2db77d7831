/-
This file writes lengths again that have been read. There are three ways to a length of the wire:
it is parsed from bytes that hold it, it is read at the cursor of the receive buffer, and it is
written. `Session.parsed_lengths_reproduce_wire` says that they belong together. What is read at the
cursor is what is parsed from the bytes that the cursor moves over, and writing it gives these
bytes, whatever they are.

For a scalar length the two cases of its strategy carry the argument: bytes that hold the marker for
NULL are the ones that NULL is written as, and any other number is one that the strategy accepts.
-/

import TabularStream.Proofs.CheckedRows
import TabularStream.Proofs.WrittenLengths

namespace TabularStream

/-! ### Scalar lengths -/

namespace ScalarLength

variable {type : ColumnType}

/-- A strategy with a marker for NULL writes it. -/
theorem encode_null_of_marker {marker : Nat} (found : type.strategy.nullMarker? = some marker) :
    encode type null = .ok (littleEndian type.descriptorSize marker) := by
  obtain ⟨serverType, strategy, maxLength, charset, precision, scale⟩ := type
  cases strategy <;> cases found <;> rfl

/-- A number that fits into the descriptor is written unless it is the marker for NULL. -/
theorem encode_of_number {number : Nat} (described : type.strategy ≠ .fixed)
    (fits : number < byteRange type.descriptorSize)
    (present : type.strategy.nullMarker? ≠ some number) :
    encode type (of (UInt32.ofNat number)) = .ok (littleEndian type.descriptorSize number) := by
  have small : byteRange type.descriptorSize ≤ 2 ^ 32 := by
    unfold ColumnType.descriptorSize
    cases type.strategy <;> decide
  have same : (UInt32.ofNat number).toNat = number :=
    UInt32.toNat_ofNat_of_lt' (Nat.lt_of_lt_of_le fits small)
  obtain ⟨serverType, strategy, maxLength, charset, precision, scale⟩ := type
  cases strategy with
  | fixed => exact absurd rfl described
  | byte =>
    have above : number ≠ 0 := fun zero => present (congrArg some zero.symm)
    have below : number < 256 := fits
    simp only [encode, ← UInt32.toNat_inj, UInt32.lt_iff_toNat_lt, same]
    exact if_neg (show ¬ (number = 0 ∨ 255 < number) by omega)
  | ushort =>
    have apart : number ≠ 0xFFFF := fun marker => present (congrArg some marker.symm)
    have below : number < 65536 := fits
    simp only [encode, UInt32.le_iff_toNat_le, same]
    exact if_neg (show ¬ 65535 ≤ number by omega)
  | long => exact congrArg (fun number => Except.ok (littleEndian 4 number)) same
  | part => exact congrArg (fun number => Except.ok (littleEndian 4 number)) same

/-- Writing the length that a descriptor stands for gives the descriptor. -/
theorem encode_ofDescriptor {bytes : Bytes} (enough : type.descriptorSize ≤ bytes.length) :
    encode type (ofDescriptor type bytes) = .ok (bytes.take type.descriptorSize) := by
  have fits := ofLittleEndian_take_lt enough
  have back := littleEndian_ofLittleEndian_take enough
  unfold ofDescriptor
  split
  · rename_i fixed
    unfold encode
    rw [fixed, ColumnType.descriptorSize, fixed]
    rfl
  · rename_i described
    dsimp only
    split
    · rename_i absent
      rw [encode_null_of_marker absent, back]
    · rename_i present
      rw [encode_of_number described fits present, back]

end ScalarLength

/-! ### Lengths of all kinds -/

/-- The kinds of length on the wire. -/
inductive LengthKind where
  | scalar (type : ColumnType)
  | total
  | chunk
  deriving DecidableEq, Repr

/-- The kind of a length. -/
def WireLength.kind : WireLength → LengthKind
  | .scalar type _ => .scalar type
  | .total _ => .total
  | .chunk _ => .chunk

namespace LengthKind

/-- The number of bytes of a length. -/
def width : LengthKind → Nat
  | scalar type => type.descriptorSize
  | total => PlpTotal.width
  | chunk => ChunkLength.width

/-- The length at the front of bytes, which have to hold a whole one. -/
def parse : LengthKind → Bytes → Except Failure WireLength
  | scalar type, bytes => (ScalarLength.parse type bytes).map (WireLength.scalar type)
  | total, bytes => (Checked.total bytes).map WireLength.total
  | chunk, bytes => (Checked.chunkLength bytes).map WireLength.chunk

/-- The operation that reads a length at the cursor. -/
def reading : LengthKind → Session.Op
  | scalar type => .buffer (.readScalarLength type)
  | total => .buffer .readTotal
  | chunk => .buffer .readChunkLength

/-- The length at the front of bytes that hold a whole one. -/
def ofBytes : LengthKind → Bytes → WireLength
  | scalar type, bytes => .scalar type (.ofDescriptor type bytes)
  | total, bytes => .total (.ofBytes bytes)
  | chunk, bytes => .chunk (.ofBytes bytes)

variable {kind : LengthKind} {bytes : Bytes}

theorem kind_ofBytes (kind : LengthKind) (bytes : Bytes) : (kind.ofBytes bytes).kind = kind := by
  cases kind <;> rfl

/-- Only the bytes of the length matter. -/
theorem ofBytes_take (kind : LengthKind) (bytes : Bytes) :
    kind.ofBytes (bytes.take kind.width) = kind.ofBytes bytes := by
  cases kind with
  | scalar type =>
    exact congrArg (WireLength.scalar type) (ScalarLength.ofDescriptor_take type bytes)
  | total => exact congrArg WireLength.total (PlpTotal.ofBytes_take bytes)
  | chunk => exact congrArg WireLength.chunk (ChunkLength.ofBytes_take bytes)

/-- Enough bytes are parsed. -/
theorem parse_eq (enough : kind.width ≤ bytes.length) :
    kind.parse bytes = .ok (kind.ofBytes bytes) := by
  cases kind with
  | scalar type =>
    have parsed : ScalarLength.parse type bytes = .ok (.ofDescriptor type bytes) :=
      if_neg (Nat.not_lt.2 enough)
    exact congrArg (Except.map _) parsed
  | total =>
    have parsed : Checked.total bytes = .ok (.ofBytes bytes) := if_neg (Nat.not_lt.2 enough)
    exact congrArg (Except.map _) parsed
  | chunk =>
    have parsed : Checked.chunkLength bytes = .ok (.ofBytes bytes) :=
      if_neg (Nat.not_lt.2 enough)
    exact congrArg (Except.map _) parsed

/-- The length that bytes stand for is written as these bytes. -/
theorem encode_ofBytes (enough : kind.width ≤ bytes.length) :
    (kind.ofBytes bytes).encode = .ok (bytes.take kind.width) := by
  cases kind with
  | scalar type => exact ScalarLength.encode_ofDescriptor enough
  | total => exact congrArg Except.ok (PlpTotal.encode_ofBytes enough)
  | chunk => exact congrArg Except.ok (ChunkLength.encode_ofBytes enough)

end LengthKind

/-! ### Reading at the cursor -/

namespace Checked

/-- Read an unsigned number of `width` bytes, which have to be readable and inside of the block. -/
def load (buffer : ReceiveBuffer) (pool : Pool) (width : Nat) :
    Except Failure (ReceiveBuffer × Nat) :=
  if buffer.reader + width ≤ buffer.capacity then buffer.readUnsigned pool width
  else .error .outOfRange

/-- Read a length with all checks. A scalar length is parsed from the bytes in front of the cursor,
the other two are read as numbers. -/
def readLength (buffer : ReceiveBuffer) (pool : Pool) :
    LengthKind → Except Failure (ReceiveBuffer × WireLength)
  | .scalar type => do
    let (past, descriptor) ← take buffer pool type.descriptorSize
    let length ← ScalarLength.parse type descriptor
    return (past, .scalar type length)
  | .total => do
    let (past, number) ← load buffer pool PlpTotal.width
    return (past, .total ⟨UInt64.ofNat number⟩)
  | .chunk => do
    let (past, number) ← load buffer pool ChunkLength.width
    return (past, .chunk ⟨UInt32.ofNat number⟩)

variable {buffer : ReceiveBuffer} {pool : Pool} {others : List Slice}

theorem load_eq (sound : buffer.Sound pool others) {width : Nat}
    (within : width ≤ buffer.readableBytes) :
    load buffer pool width =
      .ok (buffer.advance width, ofLittleEndian ((buffer.readable pool).take width)) := by
  have ordered := sound.reader_le
  have inside := sound.writer_le
  have length := sound.readableBytes
  unfold load ReceiveBuffer.readUnsigned ReceiveBuffer.readBytes
  rw [if_pos (show buffer.reader + width ≤ buffer.capacity by omega), if_pos within,
    ReceiveBuffer.peek_eq]

/-- No check fails, and the length that is read is the one that the readable bytes start with. -/
theorem readLength_eq (sound : buffer.Sound pool others) {kind : LengthKind}
    (within : kind.width ≤ buffer.readableBytes) :
    readLength buffer pool kind =
      .ok (buffer.advance kind.width, kind.ofBytes (buffer.readable pool)) := by
  cases kind with
  | scalar type =>
    have enough : ¬ (buffer.peek pool type.descriptorSize).length < type.descriptorSize :=
      Nat.not_lt.2 (Nat.le_of_eq (length_peek sound within).symm)
    have parsed : ScalarLength.parse type (buffer.peek pool type.descriptorSize) =
        .ok (.ofDescriptor type (buffer.readable pool)) := by
      rw [ScalarLength.parse, if_neg enough, ReceiveBuffer.peek_eq,
        ScalarLength.ofDescriptor_take]
    have taken : take buffer pool type.descriptorSize =
        .ok (buffer.advance _, buffer.peek pool _) := take_eq sound within
    show (take buffer pool type.descriptorSize >>= _) = _
    rw [taken]
    show (ScalarLength.parse type _ >>= _) = _
    rw [parsed]
    rfl
  | total =>
    have loaded : load buffer pool PlpTotal.width = .ok (buffer.advance _, _) :=
      load_eq sound within
    show (load buffer pool PlpTotal.width >>= _) = _
    rw [loaded]
    rfl
  | chunk =>
    have loaded : load buffer pool ChunkLength.width = .ok (buffer.advance _, _) :=
      load_eq sound within
    show (load buffer pool ChunkLength.width >>= _) = _
    rw [loaded]
    rfl

end Checked

namespace Session

variable {session : Session}

/-- The operation that reads a length finds the one that the unread bytes start with. -/
theorem step_reading_kind (session : Session) {kind : LengthKind}
    (within : kind.width ≤ session.buffer.readableBytes) :
    session.step kind.reading =
      ⟨{ session with buffer := session.buffer.advance kind.width },
        .ok (kind.ofBytes session.unread).reply⟩ := by
  have named : kind.reading = (kind.ofBytes session.unread).reading ∧
      (kind.ofBytes session.unread).width = kind.width ∧
      (kind.ofBytes session.unread).decode (session.unread.take kind.width) =
        kind.ofBytes (session.unread.take kind.width) := by
    cases kind <;> exact ⟨rfl, rfl, rfl⟩
  obtain ⟨operation, width, decoded⟩ := named
  rw [operation, step_reading, reading, width, if_pos within, decoded, LengthKind.ofBytes_take]

/-- A length is read at the cursor, parsed from the bytes that the cursor moves over, and written as
these bytes. -/
theorem parsed_lengths_reproduce_wire (reachable : session.Reachable) (kind : LengthKind)
    (enough : kind.width ≤ session.buffer.readableBytes) :
    let consumed := session.unread.take kind.width
    let past := { session.buffer with reader := session.buffer.reader + kind.width }
    ∃ length : WireLength, length.kind = kind ∧
      session.step kind.reading = ⟨{ session with buffer := past }, .ok length.reply⟩ ∧
      Checked.readLength session.buffer session.pool kind = .ok (past, length) ∧
      kind.parse consumed = .ok length ∧
      length.encode = .ok consumed := by
  dsimp only
  have sound := reachable.sound
  have moved : session.buffer.advance kind.width =
      { session.buffer with reader := session.buffer.reader + kind.width } :=
    congrArg (ReceiveBuffer.mk session.buffer.block · session.buffer.writer)
      (ReceiveBuffer.reader_advance (ReceiveBuffer.Sound.inOrder sound) enough)
  have there : kind.width ≤ session.unread.length := by
    rw [sound.length_unread]
    exact enough
  have whole : (session.unread.take kind.width).length = kind.width :=
    List.length_take_of_le there
  rw [← moved]
  refine ⟨kind.ofBytes session.unread, kind.kind_ofBytes _, session.step_reading_kind enough,
    Checked.readLength_eq sound enough, ?_, LengthKind.encode_ofBytes there⟩
  rw [LengthKind.parse_eq (Nat.le_of_eq whole.symm), LengthKind.ofBytes_take]

/-- A session in front of the two bytes that NULL is written as. -/
def markerSession : Session :=
  (fresh ⟨2, 0⟩ []).after [.buffer (.append [7, 0xFF, 0xFF, 1]), .buffer (.skip 1)]

theorem parsed_lengths_reproduce_wire_markerSession :
    let kind := LengthKind.scalar ⟨.varchar, .ushort, 9, .utf8, 0, 0⟩
    ∃ length : WireLength, length.kind = kind ∧
      (markerSession.step kind.reading).result = .ok length.reply ∧
      (markerSession.step kind.reading).session.unread = [1] ∧
      length.encode = .ok [0xFF, 0xFF] := by
  intro kind
  have new : Session.new ⟨2, 0⟩ [] = .ok (fresh ⟨2, 0⟩ []) := rfl
  have reachable : markerSession.Reachable := (Session.Reachable.new new).after (by decide)
  have left : { markerSession.buffer with reader := markerSession.buffer.reader + 2 }.readable
      markerSession.pool = [1] := by decide +kernel
  obtain ⟨length, named, read, -, -, written⟩ :=
    parsed_lengths_reproduce_wire reachable kind (by decide)
  refine ⟨length, named, ?_, ?_, written.trans (by decide)⟩
  · rw [read]
  · rw [read]
    exact left

end Session

end TabularStream
