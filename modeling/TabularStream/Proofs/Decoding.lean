/-
This file says what decoding a row gives, for every buffer that is sound and holds a block: if
the readable bytes start with a whole row then decoding succeeds, what is readable afterwards is
what follows the row, and each slot holds the bytes of its column, as slices of the block. Nobody
else's bytes change. Asking first whether the row is whole changes nothing.

Decoding goes through the values as the grammar has them, so the proofs follow the grammar: a
value by its cases, chunks by induction on how they are written, a row by induction on its
layout.
-/

import TabularStream.Proofs.Pieces
import TabularStream.Proofs.Receiving
import TabularStream.Proofs.Values

namespace TabularStream

/-- A slot as decoding leaves it: NULL, or with data of its own. -/
def Slot.IsFresh (slot : Slot) : Prop := slot = .null ∨ ∃ value, slot = .owned value

/-- The chunks of a PLP value with their lengths, the empty one at the end included. -/
def chunkRecords : List Bytes → List Bytes
  | [] => [ChunkLength.encode ⟨0⟩]
  | payload :: payloads =>
    ((ChunkLength.mk (UInt32.ofNat payload.length)).encode ++ payload) :: chunkRecords payloads

/-- How the slices of a value make it up: one for a scalar value, and for a PLP value one for its
total and one for each chunk with its length, the empty one at the end included. -/
inductive Value.Parts (type : ColumnType) (pool : Pool) : Value → Prop where
  | scalar (plain : type.isPlp = false) (slice : Slice) : Parts type pool (.scalar (some slice))
  | chunked {total : PlpTotal} {payloads : List Bytes} {chunks : Bytes} {slices : List Slice}
      (plp : type.isPlp = true) (present : total.isNull = false)
      (written : WrittenChunks payloads chunks)
      (parts : slices.map pool.bytesOf = total.encode :: chunkRecords payloads) :
      Parts type pool (.chunked (Composite.ofList slices))

theorem ChunkLength.eq_of_toNat {length : ChunkLength} {size : Nat} (same : size = length.toNat) :
    ChunkLength.mk (UInt32.ofNat size) = length := by
  rw [same, toNat, UInt32.ofNat_toNat]

theorem WrittenChunks.flatten_records {payloads : List Bytes} {bytes : Bytes}
    (written : WrittenChunks payloads bytes) : (chunkRecords payloads).flatten = bytes := by
  induction written with
  | terminator => exact List.append_nil _
  | chunk nonempty size others inductionHypothesis =>
    rw [chunkRecords, List.flatten_cons, inductionHypothesis, ChunkLength.eq_of_toNat size]

namespace ReceiveBuffer

variable {buffer after : ReceiveBuffer} {pool pool' : Pool} {others : List Slice}

/-- What taking slices off the front of a buffer does, and nothing else. -/
structure Takes (buffer : ReceiveBuffer) (pool : Pool) (others : List Slice)
    (after : ReceiveBuffer) (pool' : Pool) (taken : List Slice) (rest : Bytes) : Prop where
  sound : after.Sound pool' (taken ++ others)
  block : after.block = buffer.block
  readable : after.readable pool' = rest
  same : ∀ slice, pool'.bytesOf slice = pool.bytesOf slice
  mine : ∀ slice ∈ taken, buffer.block.map Slice.block = some slice.block

/-- A slice that is read is one of the block of the buffer. -/
theorem block_of_readSlice {count : Nat} {slice : Slice}
    (success : buffer.readSlice pool count = .ok (pool', after, slice)) :
    buffer.block.map Slice.block = some slice.block := by
  unfold ReceiveBuffer.readSlice at success
  split at success
  · cases held : buffer.block with
    | none =>
      rw [held] at success
      cases success
    | some block =>
      rw [held] at success
      unfold Handle.retain Pool.retain at success
      dsimp only at success
      split at success
      · rename_i retained
        split at retained
        · cases retained
          cases success
          rfl
        · cases retained
      · cases success
  · cases success

theorem Sound.takes_advance {count : Nat} (sound : buffer.Sound pool others)
    (within : count ≤ buffer.readableBytes) :
    buffer.Takes pool others (buffer.advance count) pool [] ((buffer.readable pool).drop count) :=
  ⟨sound.advance within, rfl, readable_advance sound.inOrder within, fun _ => rfl,
    List.forall_mem_nil _⟩

theorem Takes.trans {middle : ReceiveBuffer} {pool'' : Pool} {first second : List Slice}
    {rest last : Bytes} (front : buffer.Takes pool others middle pool' first rest)
    (back : middle.Takes pool' (first ++ others) after pool'' second last) :
    buffer.Takes pool others after pool'' (first ++ second) last where
  sound := back.sound.perm (by
    rw [← List.append_assoc]
    exact List.perm_append_comm.append_right others)
  block := back.block.trans front.block
  readable := back.readable
  same slice := (back.same slice).trans (front.same slice)
  mine := List.forall_mem_append.2 ⟨front.mine, fun slice member => by
    rw [← front.block]
    exact back.mine slice member⟩

theorem peek_front {front rest : Bytes} (split : buffer.readable pool = front ++ rest) {count : Nat}
    (width : front.length = count) : buffer.peek pool count = front := by
  rw [peek_eq, split, List.take_left' width]

/-- Reading a slice takes it, and it holds the bytes at the front. -/
theorem Sound.takes_slice {front rest : Bytes} (sound : buffer.Sound pool others)
    (held : buffer.block.isSome) (split : buffer.readable pool = front ++ rest) :
    ∃ pool' slice, buffer.readSlice pool front.length =
        .ok (pool', buffer.advance front.length, slice) ∧
      buffer.Takes pool others (buffer.advance front.length) pool' [slice] rest ∧
      pool'.bytesOf slice = front := by
  have length := length_readable sound.inOrder
  rw [split, List.length_append] at length
  have within : front.length ≤ buffer.readableBytes := by omega
  obtain ⟨pool', slice, read, taken, bytes, same⟩ := sound.readSlice held within
  refine ⟨pool', slice, read, ⟨taken, rfl, ?_, same, ?_⟩, ?_⟩
  · rw [readable_congr fun other _ => same other, readable_advance sound.inOrder within, split,
      List.drop_left]
  · exact List.forall_mem_singleton.2 (block_of_readSlice read)
  · rw [bytes, split, List.take_left]

/-! ### Chunks -/

theorem Sound.decodeChunks {payloads : List Bytes} {front : Bytes}
    (written : WrittenChunks payloads front) (rest : Bytes) (sound : buffer.Sound pool others)
    (held : buffer.block.isSome) (split : buffer.readable pool = front ++ rest) :
    ∃ pool' after slices, buffer.decodeChunks pool = ⟨pool', after, .ok slices⟩ ∧
      buffer.Takes pool others after pool' slices rest ∧
      slices.map pool'.bytesOf = chunkRecords payloads := by
  induction written generalizing buffer pool others with
  | terminator =>
    have length := length_readable sound.inOrder
    obtain ⟨pool', slice, read, takes, bytes⟩ := sound.takes_slice held split
    rw [split, List.length_append, ChunkLength.encode_length] at length
    have header : ChunkLength.ofBytes (buffer.peek pool ChunkLength.width) = ⟨0⟩ := by
      rw [peek_front split (ChunkLength.encode_length _), ChunkLength.ofBytes_encode]
    rw [ChunkLength.encode_length] at read takes
    refine ⟨pool', _, [slice], ?_, takes, congrArg (· :: []) bytes⟩
    unfold ReceiveBuffer.decodeChunks
    dsimp only
    rw [header, if_neg (by omega), if_neg (by simp [ChunkLength.toNat]; omega)]
    split
    · rename_i failed
      cases read.symm.trans failed
    · rename_i success
      cases read.symm.trans success
      rfl
  | @chunk payload others' payloads header nonempty size written inductionHypothesis =>
    have length := length_readable sound.inOrder
    rw [List.append_assoc] at split
    obtain ⟨pool', slice, read, takes, bytes⟩ := sound.takes_slice held split
    rw [split, List.length_append, List.length_append, ChunkLength.encode_length] at length
    have peeked : ChunkLength.ofBytes (buffer.peek pool ChunkLength.width) = header := by
      rw [peek_front (split.trans (List.append_assoc ..)) (ChunkLength.encode_length _),
        ChunkLength.ofBytes_encode]
    rw [List.length_append, ChunkLength.encode_length, size] at read takes
    obtain ⟨pool'', after, slices, decoded, more, records⟩ :=
      inductionHypothesis takes.sound (takes.block ▸ held) takes.readable
    refine ⟨pool'', after, slice :: slices, ?_, takes.trans more, ?_⟩
    · unfold ReceiveBuffer.decodeChunks
      dsimp only
      rw [peeked, if_neg (by omega), if_neg (by omega)]
      split
      · rename_i failed
        cases read.symm.trans failed
      · rename_i success
        cases read.symm.trans success
        rw [if_neg (by simp [nonempty]), decoded]
    · rw [List.map_cons, records, more.same, bytes, chunkRecords, ChunkLength.eq_of_toNat size]

/-! ### One value -/

/-- What decoding one value gives. -/
structure Decodes (buffer : ReceiveBuffer) (pool : Pool) (others : List Slice)
    (type : ColumnType) (reading : Reading Slot) (piece : Option Bytes) (rest : Bytes)
    (slot : Slot) : Prop where
  result : reading.result = .ok slot
  takes : buffer.Takes pool others reading.buffer reading.pool slot.slices rest
  fresh : slot.IsFresh
  wire : slot.wire? reading.pool = piece
  parts : ∀ value, slot = .owned value → value.Parts type reading.pool

theorem bytes_of_map_bytesOf {slices : List Slice} {parts : List Bytes}
    (same : slices.map pool.bytesOf = parts) :
    (Composite.ofList slices).bytes pool = parts.flatten := by
  rw [← same, ← List.flatMap_def]
  rfl

theorem Sound.decodeScalar {type : ColumnType} {contents : Option (List Bytes)} {front : Bytes}
    (written : WrittenValue type contents front) (scalar : type.isPlp = false) (rest : Bytes)
    (sound : buffer.Sound pool others) (held : buffer.block.isSome)
    (split : buffer.readable pool = front ++ rest) :
    ∃ slot, buffer.Decodes pool others type (buffer.decodeScalar pool type)
      (contents.map fun _ => front) rest slot := by
  have length := length_readable sound.inOrder
  have ordered := sound.reader_le
  unfold ReceiveBuffer.decodeScalar readScalarLength readBytes
  cases written with
  | null _ width descriptor =>
    rw [split, List.length_append, width] at length
    have enough : type.descriptorSize ≤ buffer.readableBytes := by omega
    have header : ScalarLength.ofDescriptor type (buffer.peek pool type.descriptorSize) =
        .null := by rw [peek_front split width, descriptor]
    rw [if_pos enough]
    dsimp only
    rw [header]
    have takes := sound.takes_advance enough
    rw [split, List.drop_left' width] at takes
    exact ⟨.null, rfl, takes, .inl rfl, rfl, by rintro _ ⟨⟩⟩
  | @scalar descriptor payload size _ width header exactly =>
    have front : (descriptor ++ payload).length = type.descriptorSize + size.toNat := by
      rw [List.length_append, width, exactly]
    rw [split, List.length_append, front] at length
    have enough : type.descriptorSize ≤ buffer.readableBytes := by omega
    have peeked : ScalarLength.ofDescriptor type (buffer.peek pool type.descriptorSize) =
        .of size := by
      rw [peek_front (split.trans (List.append_assoc ..)) width, header]
    have moved := readableBytes_advance_add enough
    rw [if_pos enough]
    dsimp only
    rw [peeked]
    dsimp only
    obtain ⟨pool', slice, read, takes, bytes⟩ := sound.takes_slice held split
    have start : (buffer.advance type.descriptorSize).reset buffer.reader = .ok buffer :=
      if_pos ordered
    rw [front] at read takes
    rw [if_neg (by omega), start]
    dsimp only
    rw [read]
    refine ⟨.owned (.scalar (some slice)), rfl, takes, .inr ⟨_, rfl⟩, congrArg some bytes, ?_⟩
    rintro _ ⟨⟩
    exact .scalar scalar slice
  | plpNull plp => simp [scalar] at plp
  | plp plp => simp [scalar] at plp

theorem Sound.decodePlp {type : ColumnType} {contents : Option (List Bytes)} {front : Bytes}
    (written : WrittenValue type contents front) (isPlp : type.isPlp = true) (rest : Bytes)
    (sound : buffer.Sound pool others) (held : buffer.block.isSome)
    (split : buffer.readable pool = front ++ rest) :
    ∃ slot, buffer.Decodes pool others type (buffer.decodePlp pool)
      (contents.map fun _ => front) rest slot := by
  have length := length_readable sound.inOrder
  unfold ReceiveBuffer.decodePlp
  cases written with
  | null scalar => simp [isPlp] at scalar
  | scalar scalar => simp [isPlp] at scalar
  | @plpNull total _ absent =>
    rw [split, List.length_append, PlpTotal.encode_length] at length
    have enough : PlpTotal.width ≤ buffer.readableBytes := by omega
    have peeked : PlpTotal.ofBytes (buffer.peek pool PlpTotal.width) = total := by
      rw [peek_front split total.encode_length, PlpTotal.ofBytes_encode]
    rw [if_neg (Nat.not_lt.2 enough), peeked, if_pos absent]
    have takes := sound.takes_advance enough
    rw [split, List.drop_left' total.encode_length] at takes
    exact ⟨.null, rfl, takes, .inl rfl, rfl, by rintro _ ⟨⟩⟩
  | @plp total payloads chunks _ present written =>
    rw [List.append_assoc] at split
    obtain ⟨pool', slice, read, takes, bytes⟩ := sound.takes_slice held split
    rw [PlpTotal.encode_length] at read takes
    rw [split, List.length_append, PlpTotal.encode_length] at length
    have peeked : PlpTotal.ofBytes (buffer.peek pool PlpTotal.width) = total := by
      rw [peek_front split total.encode_length, PlpTotal.ofBytes_encode]
    rw [if_neg (by omega), peeked, if_neg (by simp [present]), read]
    dsimp only
    obtain ⟨pool'', after, slices, decoded, more, records⟩ :=
      takes.sound.decodeChunks written rest (takes.block ▸ held) takes.readable
    rw [decoded]
    have parts : (slice :: slices).map pool''.bytesOf = total.encode :: chunkRecords payloads := by
      rw [List.map_cons, records, more.same, bytes]
    refine ⟨.owned (.chunked (Composite.ofList (slice :: slices))), rfl, takes.trans more,
      .inr ⟨_, rfl⟩, ?_, ?_⟩
    · refine congrArg some ((bytes_of_map_bytesOf parts).trans ?_)
      rw [List.flatten_cons, written.flatten_records]
    · rintro _ ⟨⟩
      exact .chunked isPlp present written parts

theorem Sound.decodeValue {type : ColumnType} {piece : Option Bytes} {rest : Bytes}
    (sound : buffer.Sound pool others) (held : buffer.block.isSome)
    (found : type.split (buffer.readable pool) = some (piece, rest)) :
    ∃ slot, buffer.Decodes pool others type (buffer.decodeValue pool type) piece rest slot := by
  obtain ⟨contents, front, written, split, rfl⟩ := ColumnType.split_eq_some_iff.1 found
  unfold ReceiveBuffer.decodeValue
  cases plp : type.isPlp with
  | false => exact sound.decodeScalar written plp rest held split
  | true => exact sound.decodePlp written plp rest held split

/-! ### Whole rows -/

/-- Decoding a whole row takes the bytes of its columns. -/
theorem Sound.decodeSlots {layout : RowLayout} {pieces : List (Option Bytes)} {rest : Bytes}
    (sound : buffer.Sound pool others) (held : buffer.block.isSome)
    (found : layout.split (buffer.readable pool) = some (pieces, rest)) :
    ∃ pool' after slots, buffer.decodeSlots pool layout = ⟨pool', after, .ok slots⟩ ∧
      buffer.Takes pool others after pool' (slots.flatMap Slot.slices) rest ∧
      (∀ slot ∈ slots, slot.IsFresh) ∧ slots.map (Slot.wire? pool') = pieces := by
  induction layout generalizing buffer pool others pieces with
  | nil =>
    cases found
    refine ⟨pool, buffer, [], rfl, ⟨sound, rfl, rfl, fun _ => rfl, List.forall_mem_nil _⟩, ?_, rfl⟩
    exact fun slot member => by cases member
  | cons column columns inductionHypothesis =>
    cases column with
    | none =>
      obtain ⟨⟨pieces, last⟩, tail, same⟩ := Option.map_eq_some_iff.1 found
      cases same
      obtain ⟨pool', after, slots, decoded, takes, fresh, wires⟩ :=
        inductionHypothesis sound held tail
      refine ⟨pool', after, .null :: slots, ?_, takes, ?_, congrArg (none :: ·) wires⟩
      · rw [ReceiveBuffer.decodeSlots, decoded]
      · exact List.forall_mem_cons.2 ⟨.inl rfl, fresh⟩
    | some type =>
      unfold RowLayout.split at found
      split at found
      · cases found
      · rename_i piece middle cut
        obtain ⟨⟨pieces, last⟩, tail, same⟩ := Option.map_eq_some_iff.1 found
        cases same
        obtain ⟨slot, decodes⟩ := sound.decodeValue held cut
        have takes := decodes.takes
        obtain ⟨pool', after, slots, decoded, more, fresh, wires⟩ :=
          inductionHypothesis takes.sound (takes.block ▸ held) (takes.readable.symm ▸ tail)
        refine ⟨pool', after, slot :: slots, ?_, takes.trans more,
          List.forall_mem_cons.2 ⟨decodes.fresh, fresh⟩, ?_⟩
        · rw [ReceiveBuffer.decodeSlots]
          have result := decodes.result
          generalize buffer.decodeValue pool type = reading at result decoded
          obtain ⟨_, _, _⟩ := reading
          cases result
          dsimp only at decoded ⊢
          rw [decoded]
        · rw [List.map_cons, wires, ← decodes.wire,
            Slot.wire?_congr fun slice _ => more.same slice]

/-! ### Asking whether a row is whole -/

/-- Nothing but the reading cursor has moved. -/
def OnlyRead (buffer after : ReceiveBuffer) : Prop :=
  after.block = buffer.block ∧ after.writer = buffer.writer

theorem OnlyRead.trans {middle : ReceiveBuffer} (front : buffer.OnlyRead middle)
    (back : middle.OnlyRead after) : buffer.OnlyRead after :=
  ⟨back.1.trans front.1, back.2.trans front.2⟩

theorem onlyRead_of_readBytes {count : Nat} {bytes : Bytes}
    (success : buffer.readBytes pool count = .ok (after, bytes)) : buffer.OnlyRead after := by
  obtain ⟨-, rfl, -⟩ := readBytes_inversion success
  exact ⟨rfl, rfl⟩

theorem onlyRead_passScalar (buffer : ReceiveBuffer) (pool : Pool) (type : ColumnType) :
    buffer.OnlyRead (buffer.passScalar pool type).1 := by
  unfold passScalar readScalarLength
  cases read : buffer.readBytes pool type.descriptorSize with
  | error failure => exact ⟨rfl, rfl⟩
  | ok found =>
    obtain ⟨past, bytes⟩ := found
    have moved := onlyRead_of_readBytes read
    dsimp only
    cases ScalarLength.ofDescriptor type bytes with
    | null => exact moved
    | of size =>
      dsimp only
      split <;> exact moved

theorem onlyRead_of_readChunkLength {length : ChunkLength}
    (success : buffer.readChunkLength pool = .ok (after, length)) : buffer.OnlyRead after := by
  obtain ⟨bytes, found, -⟩ := readChunkLength_inversion success
  exact onlyRead_of_readBytes found

theorem onlyRead_passChunks (buffer : ReceiveBuffer) (pool : Pool) :
    buffer.OnlyRead (buffer.passChunks pool).1 := by
  fun_induction passChunks buffer pool with
  | case1 => exact ⟨rfl, rfl⟩
  | case2 buffer past length read => exact onlyRead_of_readChunkLength read
  | case3 buffer past length read => exact onlyRead_of_readChunkLength read
  | case4 buffer past length read _ _ inductionHypothesis =>
    exact (onlyRead_of_readChunkLength read).trans inductionHypothesis

theorem onlyRead_passValue (buffer : ReceiveBuffer) (pool : Pool) (type : ColumnType) :
    buffer.OnlyRead (buffer.passValue pool type).1 := by
  unfold passValue passPlp readTotal
  split
  · cases read : buffer.readBytes pool PlpTotal.width with
    | error failure => exact ⟨rfl, rfl⟩
    | ok found =>
      have moved := onlyRead_of_readBytes read
      dsimp only
      split
      · exact moved
      · exact moved.trans (onlyRead_passChunks _ _)
  · exact onlyRead_passScalar _ _ _

theorem onlyRead_passLayout (buffer : ReceiveBuffer) (pool : Pool) (columns : RowLayout) :
    buffer.OnlyRead (buffer.passLayout pool columns).1 := by
  induction columns generalizing buffer with
  | nil => exact ⟨rfl, rfl⟩
  | cons column columns inductionHypothesis =>
    cases column with
    | none => exact inductionHypothesis buffer
    | some type =>
      have moved := onlyRead_passValue buffer pool type
      unfold passLayout
      split
      · rename_i past passed
        rw [passed] at moved
        exact moved.trans (inductionHypothesis past)
      · rename_i past passed
        rwa [passed] at moved

/-- The cursor can be set back to where it was. -/
theorem Sound.reset_of_onlyRead (sound : buffer.Sound pool others) (moved : buffer.OnlyRead after) :
    after.reset buffer.reader = .ok buffer := by
  unfold reset
  rw [if_pos (by rw [moved.2]; exact sound.reader_le), moved.1, moved.2]

/-- The cursor can be set back after a row has been passed, and then nothing has changed. -/
theorem Sound.restore {passed : ReceiveBuffer × Bool} (sound : buffer.Sound pool others)
    (moved : buffer.OnlyRead passed.1) :
    buffer.restore pool passed = ⟨pool, buffer, .ok passed.2⟩ := by
  unfold ReceiveBuffer.restore
  rw [sound.reset_of_onlyRead moved]

theorem Sound.passLayout_snd (sound : buffer.Sound pool others) (columns : RowLayout) :
    (buffer.passLayout pool columns).2 = (columns.split (buffer.readable pool)).isSome := by
  have agrees := passLayout_agrees sound.inOrder columns
  rw [RowLayout.after_eq_split] at agrees
  cases found : columns.split (buffer.readable pool) with
  | none =>
    rw [found] at agrees
    exact agrees
  | some cut =>
    rw [found] at agrees
    exact agrees.1

/-- Asking whether a row is whole answers whether one can be cut off, and changes nothing. -/
theorem Sound.canDecode (token : RowToken) (columns : List ColumnType)
    (sound : buffer.Sound pool others) : token.canDecode buffer pool columns =
      ⟨pool, buffer, .ok (token.split columns (buffer.readable pool)).isSome⟩ := by
  cases token with
  | row =>
    refine (sound.restore (onlyRead_passLayout _ _ _)).trans ?_
    rw [sound.passLayout_snd]
    rfl
  | bitmapRow =>
    have length := length_readable sound.inOrder
    unfold RowToken.canDecode canDecodeBitmap readBytes RowToken.split
    dsimp only
    by_cases enough : bitmapSize columns.length ≤ buffer.readableBytes
    · rw [if_pos enough, if_neg (by omega)]
      dsimp only
      have past := sound.advance enough
      have moved : buffer.OnlyRead (buffer.advance (bitmapSize columns.length)) := ⟨rfl, rfl⟩
      refine (sound.restore (moved.trans (onlyRead_passLayout _ _ _))).trans ?_
      rw [past.passLayout_snd, readable_advance sound.inOrder enough, peek_eq]
    · rw [if_neg enough, if_pos (by omega)]
      rfl

/-- Decoding a whole row takes the bytes of its columns, and leaves what follows it. -/
theorem Sound.decode {token : RowToken} {columns : List ColumnType}
    {pieces : List (Option Bytes)} {rest : Bytes} (sound : buffer.Sound pool others)
    (held : buffer.block.isSome)
    (found : token.split columns (buffer.readable pool) = some (pieces, rest)) :
    ∃ pool' after row, token.decode buffer pool columns = ⟨pool', after, .ok row⟩ ∧
      buffer.Takes pool others after pool' row.slices rest ∧
      (∀ slot ∈ row.slots, slot.IsFresh) ∧ row.slots.map (Slot.wire? pool') = pieces := by
  cases token with
  | row =>
    obtain ⟨pool', after, slots, decoded, takes, fresh, wires⟩ := sound.decodeSlots held found
    refine ⟨pool', after, ⟨slots⟩, ?_, takes, fresh, wires⟩
    unfold RowToken.decode ReceiveBuffer.decode decodeLayout
    dsimp only
    rw [decoded]
    rfl
  | bitmapRow =>
    have length := length_readable sound.inOrder
    unfold RowToken.split at found
    dsimp only at found
    split at found
    · cases found
    · rename_i enough
      have within : bitmapSize columns.length ≤ buffer.readableBytes := by omega
      have past := sound.takes_advance within
      rw [← readable_advance sound.inOrder within] at found
      obtain ⟨pool', after, slots, decoded, takes, fresh, wires⟩ :=
        past.sound.decodeSlots (past.block ▸ held) found
      refine ⟨pool', after, ⟨slots⟩, ?_, past.trans takes, fresh, wires⟩
      unfold RowToken.decode decodeBitmap readBytes decodeLayout
      dsimp only
      rw [if_pos within]
      dsimp only
      rw [peek_eq, decoded]
      rfl

/-! ### Tokens -/

theorem held_of_readable (some : buffer.readable pool ≠ []) : buffer.block.isSome := by
  cases held : buffer.block with
  | none => exact absurd (readable_of_none held) some
  | some block => rfl

/-- Why no row can be read: the next token is not one, or is not whole. -/
def verdict : Bytes → Resumed
  | [] => .needsMore
  | byte :: _ =>
    match RowToken.ofByte? byte with
    | none => .unexpected .unexpectedToken
    | some _ => .needsMore

/-- Resuming without a whole row changes nothing. -/
theorem Sound.resume_of_none {columns : List ColumnType} (sound : buffer.Sound pool others)
    (found : splitToken columns (buffer.readable pool) = none) :
    buffer.resume pool columns = ⟨pool, buffer, .ok (verdict (buffer.readable pool))⟩ := by
  have length := length_readable sound.inOrder
  unfold resume
  rw [peek_eq]
  cases readable : buffer.readable pool with
  | nil => rfl
  | cons byte body =>
    rw [readable] at found length
    unfold splitToken at found
    unfold verdict
    rw [List.take_succ_cons]
    dsimp only at found ⊢
    cases kind : RowToken.ofByte? byte with
    | none => rfl
    | some token =>
      rw [kind] at found
      have within : 1 ≤ buffer.readableBytes := by
        rw [List.length_cons] at length
        omega
      have moved := readable_advance sound.inOrder within
      rw [readable] at moved
      dsimp only at found ⊢
      rw [(sound.advance within).canDecode, moved, List.drop_one, List.tail_cons, found]
      rfl

/-- Resuming with a whole row gives the row and moves past it. -/
theorem Sound.resume_of_some {columns : List ColumnType} {pieces : List (Option Bytes)}
    {rest : Bytes} (sound : buffer.Sound pool others)
    (found : splitToken columns (buffer.readable pool) = some (pieces, rest)) :
    ∃ pool' after row, buffer.resume pool columns = ⟨pool', after, .ok (.row row)⟩ ∧
      buffer.Takes pool others after pool' row.slices rest ∧
      (∀ slot ∈ row.slots, slot.IsFresh) ∧ row.slots.map (Slot.wire? pool') = pieces := by
  have length := length_readable sound.inOrder
  unfold resume
  rw [peek_eq]
  cases readable : buffer.readable pool with
  | nil =>
    rw [readable] at found
    cases found
  | cons byte body =>
    have held := held_of_readable (show buffer.readable pool ≠ [] by
      rw [readable]; exact List.cons_ne_nil _ _)
    rw [readable] at found length
    unfold splitToken at found
    rw [List.take_succ_cons]
    dsimp only at found ⊢
    cases kind : RowToken.ofByte? byte with
    | none =>
      rw [kind] at found
      cases found
    | some token =>
      rw [kind] at found
      have within : 1 ≤ buffer.readableBytes := by
        rw [List.length_cons] at length
        omega
      have past := sound.takes_advance within
      have moved := past.readable
      rw [readable, List.drop_one, List.tail_cons] at moved
      dsimp only at found ⊢
      rw [← moved] at found
      obtain ⟨pool', after, row, decoded, takes, fresh, wires⟩ :=
        past.sound.decode (past.block ▸ held) found
      refine ⟨pool', after, row, ?_, past.trans takes, fresh, wires⟩
      rw [past.sound.canDecode, found]
      dsimp only [Option.isSome_some]
      rw [decoded]
      rfl

end ReceiveBuffer

end TabularStream
